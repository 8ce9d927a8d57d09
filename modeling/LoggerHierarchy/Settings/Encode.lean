import LoggerHierarchy.Document.Basic
import LoggerHierarchy.Settings.Basic

namespace LoggerHierarchy

/-!
# Writing settings as documents

* `Level.toDocument` — a well-known level by its name, any other by its severity;
* `TreeSettings.toDocument` — all settings of a tree, unset levels as null;
* `TreeSettings.toSource` — the same as a source for layering, in which an empty list says nothing.
-/

/-- A level as a document. -/
def Level.toDocument (level : Level) : Document :=
  if level.isKnown then .text level.name else .integer level.value.toInt

/-- A level that may be unset as a document. -/
def Level.optionToDocument : Option Level → Document
  | some level => level.toDocument
  | none => .null

namespace LoggerSettings

/-- The levels among the settings. -/
def levelEntries (s : LoggerSettings) : List (String × Document) :=
  [("level", Level.optionToDocument s.level), ("minimum_level", Level.optionToDocument s.minimum)]

/-- A list of texts as a document. -/
def textsToDocument (texts : List String) : Document :=
  .array (texts.map .text)

/-- All settings, as entries. -/
def toEntries (s : LoggerSettings) : List (String × Document) :=
  s.levelEntries ++ [("handlers", textsToDocument s.handlers)]

/-- The settings as entries of a source. -/
def toSource (s : LoggerSettings) : List (String × Document) :=
  s.levelEntries ++ if s.handlers.isEmpty then [] else [("handlers", textsToDocument s.handlers)]

def toDocument (s : LoggerSettings) : Document :=
  .table s.toEntries

end LoggerSettings

namespace NamedSettings

def toDocument (s : NamedSettings) : Document :=
  .table (("name", .text s.name) :: s.settings.toEntries)

def toSource (s : NamedSettings) : Document :=
  .table (("name", .text s.name) :: s.settings.toSource)

end NamedSettings

namespace TreeSettings

/-- All settings as a document. -/
def toDocument (s : TreeSettings) : Document :=
  .table [("root", s.root.toDocument), ("loggers", .array (s.loggers.map (·.toDocument)))]

/-- The settings as a source. -/
def toSource (s : TreeSettings) : List (String × Document) :=
  ("root", .table s.root.toSource) ::
    if s.loggers.isEmpty then [] else [("loggers", .array (s.loggers.map (·.toSource)))]

end TreeSettings

end LoggerHierarchy
