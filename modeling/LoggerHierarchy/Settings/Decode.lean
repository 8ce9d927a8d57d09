import LoggerHierarchy.Decimal.Shortest
import LoggerHierarchy.Document.Basic
import LoggerHierarchy.Level.Parse
import LoggerHierarchy.Settings.Basic

namespace LoggerHierarchy

/-!
# Reading settings from documents

* `DecodeFault` — why a document holds no settings; three of the faults have a fixed wording;
* `DecodeRules` — how exact a document has to be, with the two ways in use, `strict` and `loaded`;
* `Level.ofDocument` — a level from an integer of 32 bits or from a text;
* `TreeSettings.ofDocument` — the settings of a tree.  Unknown keys are ignored and absent ones
  leave their setting open; an absent root has the default settings.
-/

/-- Why a document holds no settings. -/
inductive DecodeFault where
  /-- A text that stands for no level. -/
  | unknownLevel (error : Error)
  /-- A level that is neither a text nor an integer of 32 bits. -/
  | notALevel
  /-- An entry of the loggers without a name. -/
  | missingName
  /-- Anything else that has another shape than it should. -/
  | malformed
  deriving DecidableEq, Repr

/-- The wording of a fault, if it is fixed. -/
def DecodeFault.message? : DecodeFault → Option String
  | unknownLevel error => some error.message
  | notALevel => some "data did not match any variant of untagged enum Raw"
  | missingName => some "missing field \x60name\x60"
  | malformed => none

/-- How exact a document has to be. -/
structure DecodeRules where
  /-- Booleans and numbers stand for their text where a text is wanted. -/
  scalarsAsText : Bool
  /-- Settings written as an array have no more items than there are settings. -/
  exactArrays : Bool
  deriving DecidableEq, Repr

/-- The rules for a document that is given as such. -/
def DecodeRules.strict : DecodeRules := ⟨false, true⟩

/-- The rules for a document that was layered from sources. -/
def DecodeRules.loaded : DecodeRules := ⟨true, false⟩

/-- What is read, or why it cannot be. -/
abbrev Decoded (α : Type) := Except DecodeFault α

/-! ### Levels and texts -/

/-- The level that a document stands for. -/
def Level.ofDocument : Document → Decoded Level
  | .integer i =>
    if -2147483648 ≤ i ∧ i ≤ 2147483647 then .ok (Level.ofValue (Int32.ofInt i))
    else .error .notALevel
  | .text s =>
    match Level.parse s with
    | .ok level => .ok level
    | .error error => .error (.unknownLevel error)
  | _ => .error .notALevel

/-- A level that may be null. -/
def Level.ofNullable : Document → Decoded (Option Level)
  | .null => .ok none
  | d => some <$> Level.ofDocument d

namespace Document

/-- The text of a Boolean or a number. -/
def scalarText? : Document → Option String
  | .bool b => some (if b then "true" else "false")
  | .integer i => some (toString i)
  | .float x => some x.text
  | _ => none

/-- A text. -/
def asText (scalars : Bool) (d : Document) : Decoded String :=
  match d with
  | .text s => .ok s
  | d =>
    match if scalars then d.scalarText? else none with
    | some s => .ok s
    | none => .error .malformed

/-- The items of an array of texts. -/
def asTexts (scalars : Bool) : Document → Decoded (List String)
  | .array items => items.mapM (asText scalars)
  | _ => .error .malformed

/-- What an entry holds, or a default where it is absent. -/
def fieldOr {α : Type} (entries : List (String × Document)) (key : String) (default : α)
    (decode : Document → Decoded α) : Decoded α :=
  match field? entries key with
  | some d => decode d
  | none => .ok default

/-- What an item of an array holds, or a default where it is absent. -/
def itemOr {α : Type} (items : List Document) (i : Nat) (default : α)
    (decode : Document → Decoded α) : Decoded α :=
  match items[i]? with
  | some d => decode d
  | none => .ok default

end Document

/-! ### Settings -/

namespace LoggerSettings

open Document

/-- The settings in the entries of a table. -/
def ofEntries (scalars : Bool) (entries : List (String × Document)) : Decoded LoggerSettings := do
  let level ← fieldOr entries "level" none Level.ofNullable
  let minimum ← fieldOr entries "minimum_level" none Level.ofNullable
  let handlers ← fieldOr entries "handlers" [] (asTexts scalars)
  return { level, minimum, handlers }

/-- The settings of a table, or of an array that lists them. -/
def ofDocument (rules : DecodeRules) : Document → Decoded LoggerSettings
  | .table entries => ofEntries rules.scalarsAsText entries
  | .array items => do
    let level ← itemOr items 0 none Level.ofNullable
    let minimum ← itemOr items 1 none Level.ofNullable
    let handlers ← itemOr items 2 [] (asTexts rules.scalarsAsText)
    if rules.exactArrays && decide (3 < items.length) then .error .malformed
    else return { level, minimum, handlers }
  | _ => .error .malformed

end LoggerSettings

namespace NamedSettings

open Document

/-- The settings of a table with a name; its handlers are texts under all rules. -/
def ofDocument (rules : DecodeRules) : Document → Decoded NamedSettings
  | .table entries =>
    match field? entries "name" with
    | none => .error .missingName
    | some d => do
      let name ← asText rules.scalarsAsText d
      return ⟨name, ← LoggerSettings.ofEntries false entries⟩
  | _ => .error .malformed

/-- The entries of an array. -/
def listOfDocument (rules : DecodeRules) : Document → Decoded (List NamedSettings)
  | .array items => items.mapM (ofDocument rules)
  | _ => .error .malformed

end NamedSettings

namespace TreeSettings

open Document

/-- The settings of a table, or of an array that lists them. -/
def ofDocument (rules : DecodeRules) : Document → Decoded TreeSettings
  | .table entries => do
    let root ← fieldOr entries "root" .defaultRoot (LoggerSettings.ofDocument rules)
    let loggers ← fieldOr entries "loggers" [] (NamedSettings.listOfDocument rules)
    return { root, loggers }
  | .array items => do
    let root ← itemOr items 0 .defaultRoot (LoggerSettings.ofDocument rules)
    let loggers ← itemOr items 1 [] (NamedSettings.listOfDocument rules)
    if rules.exactArrays && decide (2 < items.length) then .error .malformed
    else return { root, loggers }
  | _ => .error .malformed

end TreeSettings

end LoggerHierarchy
