import LoggerHierarchy.Decimal.Integer
import LoggerHierarchy.Error
import LoggerHierarchy.Level.Basic
import LoggerHierarchy.Text.Blank
import LoggerHierarchy.Text.Quoted

namespace LoggerHierarchy.Level

/-!
# Reading a level

A level is read from its name, whatever the case of its ASCII letters, or from the decimal text of
its severity; blanks around it do not matter:

* `named?` — the well-known level of a name;
* `parse` — the level of a text; a text that is neither a name nor a 32-bit integer is refused,
  quoted as it was given.
-/

/-- Whether two texts differ at most in the case of ASCII letters. -/
def sameLetters (a b : List Char) : Bool :=
  a.map Char.toLower == b.map Char.toLower

/-- The well-known level with the given name, in any case of its letters. -/
def named? (name : List Char) : Option Level :=
  known.find? fun level => sameLetters level.name.toList name

/-- The refusal of a text that stands for no level. -/
def unknown (given : String) : Error :=
  .invalidArgument ("unknown level name: " ++ Text.quote given)

/-- The level that a text without blanks around it stands for. -/
def ofChars? (cs : List Char) : Option Level :=
  (named? cs).or ((Decimal.readInt32 cs).map ofValue)

/-- The level that a text stands for. -/
def parse (given : String) : Except Error Level :=
  match ofChars? (Text.trimChars given.toList) with
  | some level => .ok level
  | none => .error (unknown given)

end LoggerHierarchy.Level
