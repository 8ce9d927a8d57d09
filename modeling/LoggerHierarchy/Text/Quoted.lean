import LoggerHierarchy.Text.Formless

namespace LoggerHierarchy.Text

/-!
# Quoted text

A text between double quotes, on one line and readable whatever it holds:

* `hexDigits` — the lower-case hexadecimal digits of a number, without leading zeros;
* `escapeChar` — a quote, a backslash, a tab, a line feed, a carriage return and the null character
  have short forms, a character without a shape of its own is written by its number, any other one
  stands for itself (the single quote too);
* `quote` — the quoted text.
-/

/-- The lower-case hexadecimal digits of a number, without leading zeros. -/
def hexDigits (n : Nat) : List Char :=
  Nat.toDigits 16 n

/-- One character inside quotes. -/
def escapeChar (c : Char) : List Char :=
  if c = '"' then ['\\', '"']
  else if c = '\\' then ['\\', '\\']
  else if c = '\t' then ['\\', 't']
  else if c = '\n' then ['\\', 'n']
  else if c = '\r' then ['\\', 'r']
  else if c = '\x00' then ['\\', '0']
  else if isFormless c then ['\\', 'u', '\x7b'] ++ hexDigits c.toNat ++ ['\x7d']
  else [c]

/-- The text between double quotes, every character escaped where it has to be. -/
def quote (s : String) : String :=
  String.ofList ('"' :: s.toList.flatMap escapeChar ++ ['"'])

@[simp] theorem toList_quote (s : String) :
    (quote s).toList = '"' :: s.toList.flatMap escapeChar ++ ['"'] := by
  simp [quote]

end LoggerHierarchy.Text
