import LoggerHierarchy.Level.Basic

namespace LoggerHierarchy

/-!
# Settings

What a configuration says about logger names:

* `LoggerSettings` — a level, a floor and the names of handlers, each of which may be left open;
* `NamedSettings` — the settings of one full name;
* `TreeSettings` — the settings of the root and a list of named ones; `TreeSettings.lookup` finds
  those of a name, the first in the list if there are several;
* `TreeSettings.validate` — whether every entry has a name of its own and the root's floor lets
  anything pass, with the first fault if not.
-/

/-- The settings of one logger. -/
structure LoggerSettings where
  /-- The level; unset, the logger inherits from its parent. -/
  level : Option Level := none
  /-- The floor under the effective level; unset, it is the parent's. -/
  minimum : Option Level := none
  /-- The names of the handlers, in order. -/
  handlers : List String := []
  deriving DecidableEq, Repr

/-- The settings of a full logger name. -/
structure NamedSettings where
  name : String
  settings : LoggerSettings
  deriving DecidableEq, Repr

/-- The settings of a root for which nothing is configured. -/
def LoggerSettings.defaultRoot : LoggerSettings :=
  { level := some .info, minimum := some .all }

/-- The settings of a tree. -/
structure TreeSettings where
  root : LoggerSettings := .defaultRoot
  loggers : List NamedSettings := []
  deriving DecidableEq, Repr

/-- Why settings are not valid. -/
inductive SettingsFault where
  /-- An entry without a name, which the root's settings are for. -/
  | unnamed
  /-- A second entry for a name. -/
  | duplicate (name : String)
  /-- A floor of the root that no record passes. -/
  | rootOff
  deriving DecidableEq, Repr

/-- The wording of a fault. -/
def SettingsFault.message : SettingsFault → String
  | unnamed => "logger entries must have a non-empty name; use [root] for the root logger"
  | duplicate name => "duplicate logger entry: " ++ name
  | rootOff => "root minimum_level OFF would disable every logger"

namespace TreeSettings

/-- The settings of a name; the empty name is the root's. -/
def lookup (s : TreeSettings) (name : String) : Option LoggerSettings :=
  if name = "" then some s.root
  else (s.loggers.find? (·.name = name)).map (·.settings)

/-- The first entry that has no name or the name of an earlier one, after the names in `seen`. -/
def nameFault? (seen : List String) : List NamedSettings → Option SettingsFault
  | [] => none
  | entry :: rest =>
    if entry.name = "" then some .unnamed
    else if entry.name ∈ seen then some (.duplicate entry.name)
    else nameFault? (entry.name :: seen) rest

/-- The first fault of the settings; faults of names come before that of the root. -/
def fault? (s : TreeSettings) : Option SettingsFault :=
  (nameFault? [] s.loggers).or
    (if s.root.minimum.any (· == .off) then some .rootOff else none)

/-- Whether the settings are valid, with the fault if not. -/
def validate (s : TreeSettings) : Except SettingsFault Unit :=
  match s.fault? with
  | some fault => .error fault
  | none => .ok ()

@[simp] theorem lookup_empty (s : TreeSettings) : s.lookup "" = some s.root := by
  simp [lookup]

end TreeSettings

end LoggerHierarchy
