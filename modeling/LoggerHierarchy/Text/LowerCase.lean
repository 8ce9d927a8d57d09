namespace LoggerHierarchy.Text

/-!
# Lower case

Texts that are compared in lower case with words of ASCII letters:

* `lowerChar` — the lower case of a character, where that is an ASCII character;
* `lowerChars`, `lowerCase` — the same throughout a text.
-/

/-- The lower case of a character, where that is an ASCII character; any other one stays.  Beyond
    the ASCII letters this concerns the Kelvin sign alone. -/
def lowerChar (c : Char) : Char :=
  if c = '\u212a' then 'k' else c.toLower

/-- The characters in lower case. -/
def lowerChars (cs : List Char) : List Char :=
  cs.map lowerChar

/-- The text in lower case. -/
def lowerCase (s : String) : String :=
  String.ofList (lowerChars s.toList)

@[simp] theorem toList_lowerCase (s : String) :
    (lowerCase s).toList = lowerChars s.toList := by
  simp [lowerCase]

end LoggerHierarchy.Text
