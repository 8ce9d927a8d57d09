import LoggerHierarchy.Settings.Decode
import LoggerHierarchy.Settings.Encode
import Mathlib.Data.List.Forall2

namespace LoggerHierarchy

/-!
# Reading what was written

Settings are read back from the documents that they are written as:

* `Level.canonical` — the level that stands for a level in a document: a well-known one for itself,
  any other for its severity; the same for settings;
* `SameValues` — settings that differ at most in the names of levels;
* `TreeSettings.ofDocument_toDocument` — what is read back, under all rules;
  `NamedSettings.ofDocument_toSource` — the same of a source, which leaves out empty lists;
* `exists_ofDocument_toDocument` — nothing but names is lost, and that once at most.
-/

/-! ### Levels -/

namespace Level

/-- The level that is read where a level was written. -/
def canonical (level : Level) : Level :=
  if level.isKnown then level else ofValue level.value

variable {level : Level} {value : Int32}

@[simp] theorem isKnown_iff : level.isKnown = true ↔ level ∈ known := by
  simp [isKnown]

/-- A known level is its own canonical form. -/
theorem canonical_of_mem (h : level ∈ known) : level.canonical = level := by
  simp [canonical, h]

/-- Any other level is known by its value alone. -/
theorem canonical_of_not_mem (h : level ∉ known) : level.canonical = ofValue level.value := by
  simp [canonical, h]

@[simp] theorem value_canonical (level : Level) : level.canonical.value = level.value := by
  by_cases h : level ∈ known
  · rw [canonical_of_mem h]
  · rw [canonical_of_not_mem h, value_ofValue]

/-- The level of a severity is well-known, unless no well-known level has that severity. -/
theorem ofValue_cases (value : Int32) :
    ofValue value ∈ known ∨ ofValue value = ⟨"CUSTOM", value⟩ ∧ ∀ k ∈ known, k.value ≠ value := by
  unfold ofValue
  cases hfind : known.find? (·.value = value) with
  | none => exact .inr ⟨rfl, by simpa using hfind⟩
  | some k => exact .inl (List.mem_of_find?_eq_some hfind)

@[simp] theorem canonical_ofValue (value : Int32) : (ofValue value).canonical = ofValue value := by
  by_cases h : ofValue value ∈ known
  · exact canonical_of_mem h
  · rw [canonical_of_not_mem h, value_ofValue]

@[simp] theorem canonical_canonical (level : Level) :
    level.canonical.canonical = level.canonical := by
  by_cases h : level ∈ known
  · rw [canonical_of_mem h, canonical_of_mem h]
  · rw [canonical_of_not_mem h, canonical_ofValue]

/-- A name is kept if it belongs to a well-known level, or is the one that all other severities
    have. -/
theorem name_canonical_eq_iff : level.canonical.name = level.name ↔
    level ∈ known ∨ level.name = "CUSTOM" ∧ ∀ k ∈ known, k.value ≠ level.value := by
  by_cases h : level ∈ known
  · simp [canonical_of_mem h, h]
  · rw [canonical_of_not_mem h]
    obtain hknown | ⟨hcustom, hnone⟩ := ofValue_cases level.value
    · -- another level stands for the severity, under another name
      have hvalue : (ofValue level.value).value = level.value := value_ofValue _
      constructor
      · intro hname
        have heq : ofValue level.value = level := by
          cases level
          exact Level.mk.injEq .. ▸ ⟨hname, hvalue⟩
        exact absurd (heq ▸ hknown) h
      · rintro (hmem | ⟨-, hnone⟩)
        · exact absurd hmem h
        · exact absurd hvalue (hnone _ hknown)
    · simp only [hcustom, h, false_or]
      exact ⟨fun hname => ⟨hname.symm, hnone⟩, fun hname => hname.1.symm⟩

/-- The name of a well-known level stands for it. -/
theorem parse_name (h : level ∈ known) : parse level.name = .ok level := by
  have hall : ∀ level ∈ known, ofChars? (Text.trimChars level.name.toList) = some level := by
    decide
  simp only [parse, hall level h]

/-- A level is read where a level was written. -/
@[simp] theorem ofDocument_toDocument (level : Level) :
    ofDocument level.toDocument = .ok level.canonical := by
  by_cases h : level ∈ known
  · simp [toDocument, ofDocument, canonical, h, parse_name h]
  · have hbounds : -2147483648 ≤ level.value.toInt ∧ level.value.toInt ≤ 2147483647 :=
      ⟨Int32.le_toInt _, Int32.toInt_le _⟩
    simp [toDocument, ofDocument, canonical, h, hbounds]

/-- What is decoded as a level is decoded where null is allowed too. -/
theorem ofNullable_of_ofDocument {document : Document} (h : ofDocument document = .ok level) :
    ofNullable document = .ok (some level) := by
  cases document with
  | null => cases h
  | _ => exact congrArg (some <$> ·) h

@[simp] theorem ofNullable_optionToDocument (level : Option Level) :
    ofNullable (optionToDocument level) = .ok (level.map canonical) := by
  cases level with
  | none => rfl
  | some level => exact ofNullable_of_ofDocument (ofDocument_toDocument level)

end Level

/-! ### Settings -/

variable {level minimum : Option Level} {handlers : List String}

open Document

namespace LoggerSettings

/-- The settings that are read where some were written. -/
def canonical (s : LoggerSettings) : LoggerSettings :=
  { level := s.level.map .canonical, minimum := s.minimum.map .canonical, handlers := s.handlers }

/-- Settings that differ at most in the names of levels. -/
structure SameValues (s s' : LoggerSettings) : Prop where
  level : s.level.map (·.value) = s'.level.map (·.value)
  minimum : s.minimum.map (·.value) = s'.minimum.map (·.value)
  handlers : s.handlers = s'.handlers

@[simp] theorem canonical_canonical (s : LoggerSettings) : s.canonical.canonical = s.canonical := by
  simp [canonical, Function.comp_def]

/-- The canonical form of the settings of a logger says the same. -/
theorem sameValues_canonical (s : LoggerSettings) : s.canonical.SameValues s := by
  constructor <;> simp [canonical, Function.comp_def]

/-- Settings are read field by field. -/
theorem ofEntries_of_fieldOr {scalars : Bool} {entries : List (String × Document)}
    (hlevel : fieldOr entries "level" none Level.ofNullable = .ok level)
    (hminimum : fieldOr entries "minimum_level" none Level.ofNullable = .ok minimum)
    (hhandlers : fieldOr entries "handlers" [] (asTexts scalars) = .ok handlers) :
    ofEntries scalars entries = .ok { level, minimum, handlers } := by
  simp only [ofEntries, hlevel, hminimum, hhandlers]
  rfl

/-- Texts are read where texts were written. -/
@[simp] theorem asTexts_textsToDocument (scalars : Bool) (texts : List String) :
    asTexts scalars (textsToDocument texts) = .ok texts := by
  have htext : asText scalars ∘ Document.text = (pure : String → Decoded String) := rfl
  have hpure : texts.mapM pure = (pure (texts.map id) : Decoded (List String)) := List.mapM_pure
  simp only [asTexts, textsToDocument, List.mapM_map, htext]
  rw [hpure, List.map_id]
  rfl

/-- Settings are read where they were written, whatever was written before them under a key of its
    own. -/
theorem ofEntries_cons_toEntries (scalars : Bool) (s : LoggerSettings) (key : String)
    (hkey : key ∉ ["level", "minimum_level", "handlers"]) (value : Document) :
    ofEntries scalars ((key, value) :: s.toEntries) = .ok s.canonical := by
  obtain ⟨hlevel, hminimum, hhandlers⟩ :
      key ≠ "level" ∧ key ≠ "minimum_level" ∧ key ≠ "handlers" := by simpa using hkey
  refine ofEntries_of_fieldOr ?_ ?_ ?_ <;>
    simp [fieldOr, field?, toEntries, levelEntries, hlevel, hminimum, hhandlers]

/-- The settings of a logger are read back in their canonical form, under strict and lenient
    rules. -/
theorem ofDocument_toDocument (rules : DecodeRules) (s : LoggerSettings) :
    ofDocument rules s.toDocument = .ok s.canonical := by
  refine ofEntries_of_fieldOr ?_ ?_ ?_ <;> simp [fieldOr, field?, toEntries, levelEntries]

/-- An empty list of handlers is read where none was written. -/
theorem ofEntries_cons_toSource (scalars : Bool) (s : LoggerSettings) (key : String)
    (hkey : key ∉ ["level", "minimum_level", "handlers"]) (value : Document) :
    ofEntries scalars ((key, value) :: s.toSource) = .ok s.canonical := by
  obtain ⟨hlevel, hminimum, hhandlers⟩ :
      key ≠ "level" ∧ key ≠ "minimum_level" ∧ key ≠ "handlers" := by simpa using hkey
  refine ofEntries_of_fieldOr ?_ ?_ ?_
  · simp [fieldOr, field?, toSource, levelEntries, hlevel]
  · simp [fieldOr, field?, toSource, levelEntries, hminimum]
  · cases hnone : s.handlers with
    | nil => simp [fieldOr, field?, toSource, levelEntries, hhandlers, hnone]
    | cons handler rest =>
      simp [fieldOr, field?, toSource, levelEntries, hhandlers, hnone]

end LoggerSettings

namespace NamedSettings

def canonical (s : NamedSettings) : NamedSettings :=
  { s with settings := s.settings.canonical }

structure SameValues (s s' : NamedSettings) : Prop where
  name : s.name = s'.name
  settings : s.settings.SameValues s'.settings

@[simp] theorem canonical_canonical (s : NamedSettings) : s.canonical.canonical = s.canonical := by
  simp [canonical]

/-- The canonical form of an entry says the same of the same logger. -/
theorem sameValues_canonical (s : NamedSettings) : s.canonical.SameValues s :=
  ⟨rfl, s.settings.sameValues_canonical⟩

/-- An entry is read by its name and its settings. -/
theorem ofDocument_of_ofEntries {s : NamedSettings} {entries : List (String × Document)}
    (h : LoggerSettings.ofEntries false (("name", .text s.name) :: entries) =
      .ok s.settings.canonical) (rules : DecodeRules) :
    ofDocument rules (.table (("name", .text s.name) :: entries)) = .ok s.canonical := by
  simp only [ofDocument, field?, if_true, asText, h]
  rfl

/-- An entry is read back with its name and its settings. -/
theorem ofDocument_toDocument (rules : DecodeRules) (s : NamedSettings) :
    ofDocument rules s.toDocument = .ok s.canonical :=
  ofDocument_of_ofEntries (s.settings.ofEntries_cons_toEntries false "name" (by decide) _) rules

/-- An entry is read back from a layer too, under all rules. -/
theorem ofDocument_toSource (rules : DecodeRules) (s : NamedSettings) :
    ofDocument rules s.toSource = .ok s.canonical :=
  ofDocument_of_ofEntries (s.settings.ofEntries_cons_toSource false "name" (by decide) _) rules

/-- A list is read where each of its entries is. -/
theorem listOfDocument_map {rules : DecodeRules} {write : NamedSettings → Document}
    (h : ∀ s, ofDocument rules (write s) = .ok s.canonical) (entries : List NamedSettings) :
    listOfDocument rules (.array (entries.map write)) = .ok (entries.map (·.canonical)) := by
  have hentry : ofDocument rules ∘ write = fun s => (pure s.canonical : Decoded NamedSettings) :=
    funext h
  simp only [listOfDocument, List.mapM_map, hentry]
  exact List.mapM_pure

end NamedSettings

namespace TreeSettings

def canonical (s : TreeSettings) : TreeSettings :=
  { root := s.root.canonical, loggers := s.loggers.map (·.canonical) }

structure SameValues (s s' : TreeSettings) : Prop where
  root : s.root.SameValues s'.root
  loggers : List.Forall₂ NamedSettings.SameValues s.loggers s'.loggers

@[simp] theorem canonical_canonical (s : TreeSettings) : s.canonical.canonical = s.canonical := by
  simp [canonical, Function.comp_def]

/-- The canonical form of all settings says the same of the root and of each logger. -/
theorem sameValues_canonical (s : TreeSettings) : s.canonical.SameValues s where
  root := s.root.sameValues_canonical
  loggers := by
    refine List.forall₂_map_left_iff.2 (List.forall₂_same.2 ?_)
    exact fun entry _ => entry.sameValues_canonical

/-- All that is written is read back, and a level as the one that stands for it. -/
theorem ofDocument_toDocument (rules : DecodeRules) (s : TreeSettings) :
    ofDocument rules s.toDocument = .ok s.canonical := by
  have hroot := s.root.ofDocument_toDocument rules
  have hloggers :=
    NamedSettings.listOfDocument_map (NamedSettings.ofDocument_toDocument rules) s.loggers
  have hne : "root" ≠ "loggers" := by decide
  simp only [toDocument, ofDocument, fieldOr, field?, hne, if_true, if_false, hroot, hloggers]
  rfl

/-- A level, and the settings of a tree, are read back from the documents that they are written as,
    with all their values.  A level has its name again if it is a well-known one, or has the name
    of those that are not; what was read once keeps all its names from then on. -/
theorem exists_ofDocument_toDocument :
    (∀ level : Level, ∃ level', Level.ofDocument level.toDocument = .ok level' ∧
      level'.value = level.value ∧
      (level'.name = level.name ↔ level ∈ Level.known ∨
        level.name = "CUSTOM" ∧ ∀ k ∈ Level.known, k.value ≠ level.value) ∧
      Level.ofDocument level'.toDocument = .ok level') ∧
    ∀ s : TreeSettings, ∃ s', ofDocument .strict s.toDocument = .ok s' ∧ s'.SameValues s ∧
      ofDocument .strict s'.toDocument = .ok s' := by
  constructor
  · intro level
    refine ⟨level.canonical, level.ofDocument_toDocument, level.value_canonical,
      Level.name_canonical_eq_iff, ?_⟩
    rw [Level.ofDocument_toDocument, Level.canonical_canonical]
  · intro s
    refine ⟨s.canonical, s.ofDocument_toDocument .strict, s.sameValues_canonical, ?_⟩
    rw [ofDocument_toDocument, canonical_canonical]

end TreeSettings

end LoggerHierarchy
