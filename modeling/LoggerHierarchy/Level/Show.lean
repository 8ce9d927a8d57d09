import LoggerHierarchy.Level.Basic
import LoggerHierarchy.Text.Quoted

namespace LoggerHierarchy.Level

/-!
# Showing a level

* `describe` — both parts of a level, the name quoted;
* `describeOption` — the same for a level that may be unset.
-/

/-- A level with its two parts. -/
def describe (level : Level) : String :=
  "Level \x7b name: " ++ Text.quote level.name ++ ", value: " ++ toString level.value.toInt ++
    " \x7d"

/-- A level that may be unset, with its two parts. -/
def describeOption : Option Level → String
  | some level => "Some(" ++ describe level ++ ")"
  | none => "None"

end LoggerHierarchy.Level
