import LoggerHierarchy.Proofs.Document.Layers
import LoggerHierarchy.Proofs.Settings.RoundTrip
import LoggerHierarchy.Settings.Load

namespace LoggerHierarchy

/-!
# Which source a setting comes from

Settings are layered field by field: the environment sets the levels of the root, else a file sets
a field, else the settings below are kept:

* `Environment.setting?` — what a variable sets, unless it is empty;
* `Environment.SetsRootLevels` — an environment that sets the two levels of the root at most;
  `Environment.fieldAt?_layer_source` says what it leaves of a document;
* `IsSettingsFile` — a file with plain keys, and with the right kind of value where it matters;
  `IsSettingsSource` — what it takes to be layered field by field, for files and for settings;
* `Files.KeepKeysApart` — files in which no key stands twice; `Files.keepKeysApart_ofTexts` — those
  of given texts are such;
* `TreeSettings.layered_fields` — what is found in a layered document;
* `ComesFrom` — every field comes from the source of the highest priority that has it;
* `TreeSettings.withOverride_comesFrom` — so it does in settings that are loaded with a file on top.
-/

open Document

/-- A document with a table for the root. -/
def Document.HasRoot (d : Document) : Prop :=
  ∃ entries root, d = .table entries ∧ field? entries "root" = some (.table root)

/-! ### The environment -/

namespace Environment

/-- The variable for the root's level. -/
def levelVariable : String := "LOGTREE__ROOT__LEVEL"

/-- The variable for the root's floor. -/
def minimumVariable : String := "LOGTREE__ROOT__MINIMUM_LEVEL"

/-- What a variable sets; an empty one sets nothing. -/
def setting? (environment : List (String × String)) (name : String) : Option Document :=
  ((environment.lookup name).filter (· ≠ "")).map value

/-- What the environment sets under a key of the root. -/
def rootSetting? (environment : List (String × String)) (key : String) : Option Document :=
  if key = "level" then setting? environment levelVariable
  else if key = "minimum_level" then setting? environment minimumVariable
  else none

/-- An environment in which no variable for this library is set, but for the root's two levels. -/
structure SetsRootLevels (environment : List (String × String)) : Prop where
  names : (environment.map (·.1)).Nodup
  others : ∀ entry ∈ environment, entry.1 ≠ levelVariable → entry.1 ≠ minimumVariable →
    key? entry.1 = none

variable {environment : List (String × String)} {name text : String} {target : Document}

/-- A variable means a single value. -/
theorem value_cases (s : String) : (∃ b, value s = .bool b) ∨ (∃ i, value s = .integer i) ∨
    (∃ x, value s = .float x) ∨ value s = .text s := by
  simp only [value]
  split_ifs
  · exact .inl ⟨true, rfl⟩
  · exact .inl ⟨false, rfl⟩
  · split
    · exact .inr (.inl ⟨_, rfl⟩)
    · split
      · exact .inr (.inr (.inl ⟨_, rfl⟩))
      · exact .inr (.inr (.inr rfl))

/-- A variable gives no table. -/
theorem value_ne_table (s : String) (entries : List (String × Document)) :
    value s ≠ .table entries := by
  obtain ⟨_, h⟩ | ⟨_, h⟩ | ⟨_, h⟩ | h := value_cases s <;> simp [h]

/-- A variable does not give null. -/
theorem value_ne_null (s : String) : value s ≠ .null := by
  obtain ⟨_, h⟩ | ⟨_, h⟩ | ⟨_, h⟩ | h := value_cases s <;> simp [h]

/-- A variable that comes first hides one of the same name; an empty text counts as unset. -/
theorem setting?_cons (name text : String) (environment : List (String × String))
    (other : String) : setting? ((name, text) :: environment) other =
      if other = name then (if text = "" then none else some (value text))
      else setting? environment other := by
  by_cases heq : other = name
  · by_cases htext : text = "" <;> simp [setting?, heq, htext]
  · have hbeq : (other == name) = false := beq_false_of_ne heq
    simp [setting?, List.lookup_cons, hbeq, heq]

/-- A variable that is nowhere in the environment sets nothing. -/
theorem setting?_eq_none_of_notMem (h : name ∉ environment.map (·.1)) :
    setting? environment name = none := by
  induction environment with
  | nil => rfl
  | cons entry rest ih =>
    obtain ⟨hne, hrest⟩ : name ≠ entry.1 ∧ name ∉ rest.map (·.1) := by simpa using h
    rw [setting?_cons, if_neg hne, ih hrest]

/-- A variable for one of the root's levels sets that level alone. -/
theorem layerEntry_root {key : String} (hkey : key = "level" ∨ key = "minimum_level")
    (text : String) (target : Document) :
    ∃ d, layerEntry target ("root." ++ key) (value text) = d ∧ HasRoot d ∧
      (∀ k, k ≠ "root" → field? d.entries k = field? target.entries k) ∧
      ∀ k, fieldAt? d "root" k =
        if k = key then some (value text) else fieldAt? target "root" k := by
  have hpath : Text.lowerCase ("root." ++ key) = "root." ++ key ∧
      Path.parse? ("root." ++ key) = some [.key "root", .key key] ∧ Text.lowerCase key = key := by
    rcases hkey with rfl | rfl <;> decide +kernel
  have hroot : Text.lowerCase "root" = "root" := by decide
  refine ⟨_, rfl, ?_⟩
  rw [layerEntry_of_path hpath.1 hpath.2.1 hroot hpath.2.2 (value_ne_table text)]
  refine ⟨⟨_, _, rfl, by rw [field?_put, if_pos rfl]⟩, ?_, fieldAt?_put_put _ _ _ _⟩
  intro k hk
  rw [entries_table, field?_put, if_neg hk]

/-- A variable sets nothing, or one of the root's levels. -/
theorem source_cons_cases (text : String) (hnew : name ∉ environment.map (·.1))
    (hname : name ≠ levelVariable → name ≠ minimumVariable → key? name = none) :
    (source ((name, text) :: environment) = source environment ∧
      ∀ k, rootSetting? ((name, text) :: environment) k = rootSetting? environment k) ∨
    ∃ key, (key = "level" ∨ key = "minimum_level") ∧
      source ((name, text) :: environment) =
        ("root." ++ key, value text) :: source environment ∧
      ∀ k, rootSetting? ((name, text) :: environment) k =
        (rootSetting? environment k).or (if k = key then some (value text) else none) := by
  have hnone := setting?_eq_none_of_notMem hnew
  -- an empty variable says nothing, and only the two of the root say something
  by_cases htext : text = ""
  · refine .inl ⟨by simp [source, htext], fun k => ?_⟩
    simp only [rootSetting?, setting?_cons, htext, if_true]
    split_ifs <;> simp_all
  · by_cases hlevel : name = levelVariable
    · have hkey : key? levelVariable = some "root.level" := by decide
      subst hlevel
      refine .inr ⟨"level", .inl rfl, by simp [source, htext, hkey], fun k => ?_⟩
      have hne : minimumVariable ≠ levelVariable := by decide
      simp only [rootSetting?, setting?_cons, hne, htext, if_true, if_false]
      split_ifs <;> simp [hnone]
    · by_cases hminimum : name = minimumVariable
      · have hkey : key? minimumVariable = some "root.minimum_level" := by decide
        subst hminimum
        refine .inr ⟨"minimum_level", .inr rfl, by simp [source, htext, hkey], fun k => ?_⟩
        have hne : levelVariable ≠ minimumVariable := by decide
        simp only [rootSetting?, setting?_cons, hne, htext, if_true, if_false]
        split_ifs <;> simp_all
      · refine .inl ⟨by simp [source, htext, hname hlevel hminimum], fun k => ?_⟩
        simp only [rootSetting?, setting?_cons, Ne.symm hlevel, Ne.symm hminimum, if_false]

/-- The environment sets the two levels of the root, and leaves everything else. -/
theorem fieldAt?_layer_source (h : SetsRootLevels environment) (hroot : HasRoot target) :
    HasRoot (layer target (source environment)) ∧
    (∀ key, key ≠ "root" →
      field? (layer target (source environment)).entries key = field? target.entries key) ∧
    ∀ key, fieldAt? (layer target (source environment)) "root" key =
      (rootSetting? environment key).or (fieldAt? target "root" key) := by
  -- variable by variable; no two have the same name, so their order does not matter
  induction environment generalizing target with
  | nil => exact ⟨hroot, fun _ _ => rfl, fun key => by simp [layer, source, rootSetting?, setting?]⟩
  | cons entry rest ih =>
    obtain ⟨name, text⟩ := entry
    obtain ⟨hnew, hnames⟩ := List.nodup_cons.1 h.names
    obtain ⟨hname, hothers⟩ := List.forall_mem_cons.1 h.others
    have hrest : SetsRootLevels rest := ⟨hnames, hothers⟩
    obtain ⟨hsource, hsetting⟩ | ⟨key, hkey, hsource, hsetting⟩ := source_cons_cases text hnew hname
    · simp only [hsource, hsetting]
      exact ih hrest hroot
    · obtain ⟨d, hd, hset, hother, hroot'⟩ := layerEntry_root hkey text target
      have hlayer : layer target (("root." ++ key, value text) :: source rest) =
          layer d (source rest) := by rw [← hd]; rfl
      obtain ⟨hend, hfields, hlevels⟩ := ih hrest hset
      rw [hsource, hlayer]
      refine ⟨hend, fun k hk => (hfields k hk).trans (hother k hk), fun k => ?_⟩
      rw [hlevels k, hroot' k, hsetting k]
      split_ifs <;> simp

end Environment

/-! ### Sources of settings -/

variable {source entries : List (String × Document)} {key : String}

/-- The keys of the settings of one logger. -/
def settingKeys : List String :=
  ["level", "minimum_level", "handlers"]

/-- A source that is layered field by field. -/
structure IsSettingsSource (source : List (String × Document)) : Prop where
  plain : ∀ entry ∈ source, IsPlainKey entry.1
  keys : (source.map (·.1)).Nodup
  root : ∀ d, field? source "root" = some d → ∃ entries, d = .table entries ∧ Mergeable entries
  fields : ∀ key ∈ settingKeys, ∀ d, fieldAt? (.table source) "root" key = some d →
    ∀ entries, d ≠ .table entries
  loggers : ∀ d, field? source "loggers" = some d → ∀ entries, d ≠ .table entries

namespace IsSettingsSource

/-- A source of settings can be merged. -/
theorem mergeable (h : IsSettingsSource source) : Mergeable source :=
  mergeable_of_plain h.plain h.keys

/-- Loggers in the source replace those below. -/
theorem field?_layer (h : IsSettingsSource source) (target : Document) :
    field? (layer target source).entries "loggers" =
      (field? source "loggers").or (field? target.entries "loggers") := by
  rw [layer_eq_mergeInto h.plain, field?_mergeInto h.mergeable]
  cases hd : field? source "loggers" with
  | none => rfl
  | some d => simp [onTop_of_not_table (h.loggers d hd)]

/-- A setting of the root in the source replaces the one below. -/
theorem fieldAt?_layer (h : IsSettingsSource source) (hkey : key ∈ settingKeys)
    (target : Document) : fieldAt? (layer target source) "root" key =
      (fieldAt? (.table source) "root" key).or (fieldAt? target "root" key) := by
  rw [layer_eq_mergeInto h.plain]
  exact fieldAt?_mergeInto h.mergeable h.root (h.fields key hkey) target

/-- There is a table for the root then, if there is one in the source or below. -/
theorem hasRoot_layer (h : IsSettingsSource source)
    (hroot : HasRoot (.table entries) ∨
      field? entries "root" = none ∧ field? source "root" ≠ none) :
    HasRoot (layer (.table entries) source) := by
  obtain ⟨merged, hmerged⟩ := exists_mergeInto_eq entries source
  have hfield := field?_mergeInto h.mergeable (.table entries) "root"
  rw [layer_eq_mergeInto h.plain, hmerged]
  rw [hmerged, entries_table, entries_table] at hfield
  -- the table for the root is that of the target, or that of the source on top of it
  cases hd : field? source "root" with
  | none =>
    obtain ⟨_, root, ⟨⟩, htable⟩ | ⟨-, hsome⟩ := hroot
    · rw [hd] at hfield
      exact ⟨merged, root, rfl, hfield.trans htable⟩
    · exact absurd hd hsome
  | some d =>
    obtain ⟨incoming, rfl, -⟩ := h.root d hd
    rw [hd] at hfield
    obtain ⟨below, hbelow⟩ : ∃ below, (field? entries "root").getD (.table []) = .table below := by
      obtain ⟨_, root, ⟨⟩, htable⟩ | ⟨hnone, -⟩ := hroot
      · exact ⟨root, by rw [htable]; rfl⟩
      · exact ⟨[], by rw [hnone]; rfl⟩
    obtain ⟨result, hresult⟩ := exists_mergeInto_eq below incoming
    refine ⟨merged, result, rfl, hfield.trans ?_⟩
    simp only [onTop_table, hbelow, hresult]

end IsSettingsSource

/-- The entries of a file with plain keys, in which what matters has the right kind of value. -/
structure IsSettingsFile (entries : List (String × Document)) : Prop where
  plain : ∀ entry ∈ entries, IsPlainKey entry.1
  root : ∀ d, field? entries "root" = some d →
    ∃ root, d = .table root ∧ ∀ entry ∈ root, IsPlainKey entry.1
  levels : ∀ key, key = "level" ∨ key = "minimum_level" →
    ∀ d, fieldAt? (.table entries) "root" key = some d → (∃ i, d = .integer i) ∨ ∃ s, d = .text s
  handlers : ∀ d, fieldAt? (.table entries) "root" "handlers" = some d → ∃ items, d = .array items
  loggers : ∀ d, field? entries "loggers" = some d → ∃ items, d = .array items

/-- A field that is found is one of the entries. -/
theorem mem_of_field?_eq_some {d : Document} (h : field? entries key = some d) :
    (key, d) ∈ entries := by
  induction entries with
  | nil => cases h
  | cons entry rest ih =>
    obtain ⟨first, value⟩ := entry
    rw [field?] at h
    split at h
    · rename_i heq
      cases h
      exact heq ▸ List.mem_cons_self
    · exact List.mem_cons_of_mem _ (ih h)

/-- A file that was read has no key twice, so it is layered field by field. -/
theorem IsSettingsFile.isSettingsSource (h : IsSettingsFile entries)
    (hkeyed : Keyed Document.Distinct entries) : IsSettingsSource entries where
  plain := h.plain
  keys := hkeyed.keys
  root d hd := by
    obtain ⟨root, rfl, hplain⟩ := h.root d hd
    have hroot := keyed_of_distinct (hkeyed.values _ (mem_of_field?_eq_some hd))
    exact ⟨root, rfl, mergeable_of_plain hplain hroot.keys⟩
  fields key hkey d hd entries := by
    obtain rfl | rfl | rfl : key = "level" ∨ key = "minimum_level" ∨ key = "handlers" := by
      simpa [settingKeys] using hkey
    · obtain ⟨i, rfl⟩ | ⟨s, rfl⟩ := h.levels _ (.inl rfl) d hd <;> simp
    · obtain ⟨i, rfl⟩ | ⟨s, rfl⟩ := h.levels _ (.inr rfl) d hd <;> simp
    · obtain ⟨items, rfl⟩ := h.handlers d hd
      simp
  loggers d hd entries := by
    obtain ⟨items, rfl⟩ := h.loggers d hd
    simp

/-- Whether no key stands twice in a table that is read from a file, as the format wants it. -/
def Files.KeepKeysApart (files : Files) : Prop :=
  ∀ text entries, files.entries? text = some entries → Keyed Document.Distinct entries

/-- A file that was found and read has no key twice. -/
theorem Files.KeepKeysApart.keyed {files : Files} (h : files.KeepKeysApart) {path : String}
    (hread : files.read? path = some entries) : Keyed Document.Distinct entries := by
  obtain ⟨text, -, hentries⟩ := Option.bind_eq_some_iff.1 hread
  exact h text entries hentries

/-- The reader of given texts refuses a key that stands twice. -/
theorem Files.keepKeysApart_ofTexts (texts : List (String × String)) :
    (Files.ofTexts texts).KeepKeysApart :=
  fun _ _ hparse => Toml.keyed_parse hparse

/-- A file that is found by its path is read as the document that its text stands for. -/
theorem Files.read?_ofTexts {texts : List (String × String)} {path text : String}
    (htext : textOfPath? texts path = some text) :
    (Files.ofTexts texts).read? path = Toml.parse text := by
  simp [read?, ofTexts, htext]

namespace LoggerSettings

/-- The settings of a logger are written under the known keys, in their order. -/
theorem keys_toSource (s : LoggerSettings) : (s.toSource.map (·.1)).Sublist settingKeys := by
  unfold toSource levelEntries
  split
  · exact List.sublist_append_left ["level", "minimum_level"] ["handlers"]
  · exact List.Sublist.refl _

/-- Written settings can be merged: no key repeats, and none is a path. -/
theorem mergeable_toSource (s : LoggerSettings) : Mergeable s.toSource where
  lower := by
    have hlower : ∀ key ∈ settingKeys, Text.lowerCase key = key := by decide
    exact fun entry hentry => hlower _ (s.keys_toSource.subset (List.mem_map_of_mem hentry))
  keys := s.keys_toSource.nodup (by decide)

/-- The level is always written, null if it is unset. -/
theorem field?_toSource_level (s : LoggerSettings) :
    field? s.toSource "level" = some (Level.optionToDocument s.level) := by
  simp [toSource, levelEntries, field?]

/-- The minimum level is always written, null if it is unset. -/
theorem field?_toSource_minimum (s : LoggerSettings) :
    field? s.toSource "minimum_level" = some (Level.optionToDocument s.minimum) := by
  simp [toSource, levelEntries, field?]

/-- Handlers are written unless there are none. -/
theorem field?_toSource_handlers (s : LoggerSettings) :
    field? s.toSource "handlers" =
      if s.handlers.isEmpty then none else some (textsToDocument s.handlers) := by
  by_cases h : s.handlers.isEmpty <;> simp [toSource, levelEntries, field?, h]

/-- A level, set or not, is no table. -/
theorem optionToDocument_ne_table (level : Option Level) (entries : List (String × Document)) :
    Level.optionToDocument level ≠ .table entries := by
  cases level with
  | none => exact Document.noConfusion
  | some level =>
    rw [Level.optionToDocument, Level.toDocument]
    split <;> exact Document.noConfusion

/-- None of the settings of a logger is a table. -/
theorem field?_toSource_ne_table (s : LoggerSettings) (hkey : key ∈ settingKeys) {d : Document}
    (hd : field? s.toSource key = some d) (entries : List (String × Document)) :
    d ≠ .table entries := by
  obtain rfl | rfl | rfl : key = "level" ∨ key = "minimum_level" ∨ key = "handlers" := by
    simpa [settingKeys] using hkey
  · rw [field?_toSource_level] at hd
    exact Option.some.inj hd ▸ optionToDocument_ne_table _ _
  · rw [field?_toSource_minimum] at hd
    exact Option.some.inj hd ▸ optionToDocument_ne_table _ _
  · rw [field?_toSource_handlers] at hd
    split at hd
    · cases hd
    · cases hd
      exact Document.noConfusion

end LoggerSettings

namespace TreeSettings

/-- The settings of the root are written as a table. -/
theorem field?_toSource_root (s : TreeSettings) :
    field? s.toSource "root" = some (.table s.root.toSource) := by
  simp [toSource, field?]

/-- The entries for loggers are written as an array, unless there are none. -/
theorem field?_toSource_loggers (s : TreeSettings) : field? s.toSource "loggers" =
    if s.loggers.isEmpty then none else some (.array (s.loggers.map (·.toSource))) := by
  by_cases h : s.loggers.isEmpty <;> simp [toSource, field?, h]

/-- What is written below `root` are the settings of the root. -/
theorem fieldAt?_toSource (s : TreeSettings) (key : String) :
    fieldAt? (.table s.toSource) "root" key = field? s.root.toSource key := by
  simp [fieldAt?, field?_toSource_root]

/-- Settings are written under two keys. -/
theorem keys_toSource (s : TreeSettings) : (s.toSource.map (·.1)).Sublist ["root", "loggers"] := by
  unfold toSource
  split
  · exact List.sublist_append_left ["root"] ["loggers"]
  · exact List.Sublist.refl _

/-- Settings make a source that is layered field by field. -/
theorem isSettingsSource_toSource (s : TreeSettings) : IsSettingsSource s.toSource where
  plain := by
    have hplain : ∀ key ∈ ["root", "loggers"], IsPlainKey key := by decide
    exact fun entry hentry => hplain _ (s.keys_toSource.subset (List.mem_map_of_mem hentry))
  keys := s.keys_toSource.nodup (by decide)
  root d hd := by
    rw [field?_toSource_root] at hd
    cases hd
    exact ⟨_, rfl, s.root.mergeable_toSource⟩
  fields key hkey d hd entries := by
    rw [fieldAt?_toSource] at hd
    exact s.root.field?_toSource_ne_table hkey hd entries
  loggers d hd entries := by
    rw [field?_toSource_loggers] at hd
    split at hd
    · cases hd
    · cases hd
      exact Document.noConfusion

/-! ### Layered settings -/

variable {environment : List (String × String)} {file : List (String × Document)}

/-- What is found in the layered document, field by field. -/
theorem layered_fields (s : TreeSettings) (hfile : IsSettingsSource file)
    (henvironment : Environment.SetsRootLevels environment) :
    let d := s.layered file (Environment.source environment)
    HasRoot d ∧
    field? d.entries "loggers" = (field? file "loggers").or (field? s.toSource "loggers") ∧
    ∀ key ∈ settingKeys, fieldAt? d "root" key =
      (Environment.rootSetting? environment key).or
        ((fieldAt? (.table file) "root" key).or (field? s.root.toSource key)) := by
  have hown := s.isSettingsSource_toSource
  have hroot : HasRoot (layer (.table []) s.toSource) :=
    hown.hasRoot_layer (.inr ⟨rfl, by simp [field?_toSource_root]⟩)
  have hfields : ∀ key ∈ settingKeys,
      fieldAt? (layer (.table []) s.toSource) "root" key = field? s.root.toSource key := by
    intro key hkey
    rw [hown.fieldAt?_layer hkey, fieldAt?_toSource]
    simp [fieldAt?]
  have hloggers : field? (layer (.table []) s.toSource).entries "loggers" =
      field? s.toSource "loggers" := by
    rw [hown.field?_layer]
    simp
  -- first the settings below, then the file, then the environment
  obtain ⟨entries, root, htable, htop⟩ := hroot
  have hover : HasRoot (layer (layer (.table []) s.toSource) file) := by
    rw [htable]
    exact hfile.hasRoot_layer (.inl ⟨entries, root, rfl, htop⟩)
  obtain ⟨hend, hother, hset⟩ := Environment.fieldAt?_layer_source henvironment hover
  refine ⟨hend, ?_, fun key hkey => ?_⟩
  · rw [layered, hother "loggers" (by decide), hfile.field?_layer, hloggers]
  · rw [layered, hset, hfile.fieldAt?_layer hkey, hfields key hkey]

end TreeSettings

/-! ### Reading them -/

/-- Decoding in two steps succeeds when both steps do. -/
theorem decoded_bind_eq_ok_iff {α β : Type} {x : Decoded α} {f : α → Decoded β} {b : β} :
    (x >>= f) = .ok b ↔ ∃ a, x = .ok a ∧ f a = .ok b := by
  cases x with
  | error fault => exact ⟨fun h => (nomatch h), fun ⟨_, h, _⟩ => (nomatch h)⟩
  | ok a => exact ⟨fun h => ⟨a, rfl, h⟩, fun ⟨_, h, hf⟩ => by cases h; exact hf⟩

/-- A field that is missing has its default; one that is there is decoded. -/
theorem fieldOr_eq_elim {α : Type} (entries : List (String × Document)) (key : String) (default : α)
    (decode : Document → Decoded α) :
    fieldOr entries key default decode = (field? entries key).elim (.ok default) decode := by
  unfold fieldOr
  cases field? entries key <;> rfl

/-- Settings are read field by field. -/
theorem TreeSettings.ofDocument_eq_ok_iff {rules : DecodeRules} {d : Document} (hroot : HasRoot d)
    {r : TreeSettings} : ofDocument rules d = .ok r ↔
      (fieldAt? d "root" "level").elim (.ok none) Level.ofNullable = .ok r.root.level ∧
      (fieldAt? d "root" "minimum_level").elim (.ok none) Level.ofNullable = .ok r.root.minimum ∧
      (fieldAt? d "root" "handlers").elim (.ok []) (asTexts rules.scalarsAsText) =
        .ok r.root.handlers ∧
      (field? d.entries "loggers").elim (.ok []) (NamedSettings.listOfDocument rules) =
        .ok r.loggers := by
  obtain ⟨entries, root, rfl, htable⟩ := hroot
  obtain ⟨⟨level, minimum, handlers⟩, loggers⟩ := r
  simp only [ofDocument, LoggerSettings.ofEntries, fieldOr_eq_elim, fieldAt?, entries_table, htable,
    Option.elim_some, Option.bind_some, LoggerSettings.ofDocument, decoded_bind_eq_ok_iff]
  constructor
  · rintro ⟨_, ⟨_, hlevel, _, hminimum, _, hhandlers, ⟨⟩⟩, _, hloggers, ⟨⟩⟩
    exact ⟨hlevel, hminimum, hhandlers, hloggers⟩
  · rintro ⟨hlevel, hminimum, hhandlers, hloggers⟩
    exact ⟨_, ⟨_, hlevel, _, hminimum, _, hhandlers, rfl⟩, _, hloggers, rfl⟩

/-- A level is the one that a source sets, if one does, and else the level below. -/
def LevelFrom (set : Option Document) (below read : Option Level) : Prop :=
  match set with
  | some d => ∃ level, Level.ofDocument d = .ok level ∧ read = some level
  | none => read = below

/-- Every field comes from the source of the highest priority that has it. -/
structure ComesFrom (environment : List (String × String)) (file : List (String × Document))
    (below read : TreeSettings) : Prop where
  level : LevelFrom ((Environment.setting? environment Environment.levelVariable).or
    (fieldAt? (.table file) "root" "level")) below.root.level read.root.level
  minimum : LevelFrom ((Environment.setting? environment Environment.minimumVariable).or
    (fieldAt? (.table file) "root" "minimum_level")) below.root.minimum read.root.minimum
  handlers : match fieldAt? (.table file) "root" "handlers" with
    | some d => asTexts true d = .ok read.root.handlers
    | none => read.root.handlers = below.root.handlers
  loggers : match field? file "loggers" with
    | some d => NamedSettings.listOfDocument .loaded d = .ok read.loggers
    | none => read.loggers = below.loggers

/-- A level below that is not set stays unset. -/
theorem elim_ofNullable_eq_ok_iff {set : Option Document} (hset : ∀ d ∈ set, d ≠ .null)
    {below read : Option Level} :
    (set.or (some (Level.optionToDocument below))).elim (.ok none) Level.ofNullable = .ok read ↔
      LevelFrom set (below.map .canonical) read := by
  cases set with
  | none => simp [LevelFrom, eq_comm]
  | some d =>
    have hread : Level.ofNullable d = some <$> Level.ofDocument d := by
      cases d with
      | null => exact absurd rfl (hset _ rfl)
      | _ => rfl
    simp only [Option.some_or, Option.elim_some, LevelFrom, hread]
    cases Level.ofDocument d with
    | error fault => simp [Functor.map, Except.map]
    | ok level => simp [Functor.map, Except.map, eq_comm]

/-- An empty list below is read back although it says nothing. -/
theorem elim_asTexts_eq_ok_iff {set : Option Document} {below read : List String} :
    (set.or (if below.isEmpty then none else some (LoggerSettings.textsToDocument below))).elim
        (.ok []) (asTexts true) = .ok read ↔
      match set with
      | some d => asTexts true d = .ok read
      | none => read = below := by
  cases set with
  | some d => rfl
  | none =>
    cases below with
    | nil => simp [eq_comm]
    | cons handler rest => simp [eq_comm]

/-- An empty list of loggers below is read back although it says nothing, and other entries
    are read back in their canonical form. -/
theorem elim_listOfDocument_eq_ok_iff {set : Option Document} {below read : List NamedSettings} :
    (set.or (if below.isEmpty then none else some (.array (below.map (·.toSource))))).elim
        (.ok []) (NamedSettings.listOfDocument .loaded) = .ok read ↔
      match set with
      | some d => NamedSettings.listOfDocument .loaded d = .ok read
      | none => read = below.map (·.canonical) := by
  have hbelow := NamedSettings.listOfDocument_map (NamedSettings.ofDocument_toSource .loaded) below
  cases set with
  | some d => rfl
  | none =>
    cases below with
    | nil => simp [eq_comm]
    | cons entry rest =>
      simp only [Option.none_or, List.isEmpty_cons, Bool.false_eq_true, if_false, Option.elim_some,
        hbelow]
      simp [eq_comm]

namespace TreeSettings

/-- Layered settings are read iff every field can be read, and then each comes from the source of
    the highest priority that has it. -/
theorem ofDocument_layered_eq_ok_iff {s r : TreeSettings} {environment : List (String × String)}
    {file : List (String × Document)} (hkeyed : Keyed Document.Distinct file)
    (hfile : IsSettingsFile file) (henvironment : Environment.SetsRootLevels environment) :
    ofDocument .loaded (s.layered file (Environment.source environment)) = .ok r ↔
      ComesFrom environment file s.canonical r := by
  obtain ⟨hroot, hloggers, hfields⟩ :=
    s.layered_fields (hfile.isSettingsSource hkeyed) henvironment
  -- neither the environment nor a file can say null
  have hset : ∀ key, key = "level" ∨ key = "minimum_level" → ∀ name,
      ∀ d ∈ (Environment.setting? environment name).or (fieldAt? (.table file) "root" key),
        d ≠ .null := by
    intro key hkey name d hd
    rcases Option.or_eq_some_iff.1 hd with henv | ⟨-, hin⟩
    · obtain ⟨text, -, rfl⟩ := Option.map_eq_some_iff.1 henv
      exact Environment.value_ne_null text
    · obtain ⟨i, rfl⟩ | ⟨text, rfl⟩ := hfile.levels key hkey d hin <;> simp
  have hlevel : Environment.rootSetting? environment "level" =
      Environment.setting? environment Environment.levelVariable := rfl
  have hminimum : Environment.rootSetting? environment "minimum_level" =
      Environment.setting? environment Environment.minimumVariable := rfl
  have hhandlers : Environment.rootSetting? environment "handlers" = none := rfl
  rw [ofDocument_eq_ok_iff hroot, hloggers, hfields "level" (by decide),
    hfields "minimum_level" (by decide), hfields "handlers" (by decide),
    s.root.field?_toSource_level, s.root.field?_toSource_minimum, s.root.field?_toSource_handlers,
    s.field?_toSource_loggers, hlevel, hminimum, hhandlers, Option.none_or, ← Option.or_assoc,
    ← Option.or_assoc, elim_ofNullable_eq_ok_iff (hset _ (.inl rfl) _),
    elim_ofNullable_eq_ok_iff (hset _ (.inr rfl) _), elim_listOfDocument_eq_ok_iff]
  constructor
  · rintro ⟨hl, hm, hh, hs⟩
    exact ⟨hl, hm, elim_asTexts_eq_ok_iff.1 hh, hs⟩
  · rintro ⟨hl, hm, hh, hs⟩
    exact ⟨hl, hm, elim_asTexts_eq_ok_iff.2 hh, hs⟩

/-- Nothing changes if no source has anything. -/
theorem comesFrom_nil {environment : List (String × String)} (below : TreeSettings)
    (hlevel : Environment.setting? environment Environment.levelVariable = none)
    (hminimum : Environment.setting? environment Environment.minimumVariable = none) :
    ComesFrom environment [] below below := by
  constructor
  · simp [hlevel, fieldAt?, LevelFrom]
  · simp [hminimum, fieldAt?, LevelFrom]
  · rfl
  · rfl

variable {path : String} {around : Surroundings} {file : List (String × Document)}

/-- However files are found and read, as long as no key stands twice: what is loaded with a file on
    top comes, field by field, from the environment, from the file or from the settings below, in
    this order; and it is loaded iff every field that counts can be read.  An empty file changes at
    most the names of levels, and the default settings with a file on top are those that are loaded
    when the environment has the path of the file. -/
theorem withOverride_comesFrom (s : TreeSettings)
    (hkeys : around.files.KeepKeysApart) (hfound : around.files.read? path = some file)
    (hfile : IsSettingsFile file)
    (henvironment : Environment.SetsRootLevels around.environment) :
    s.canonical.SameValues s ∧
    (∀ r, s.withOverride path around = .ok r ↔ ComesFrom around.environment file s.canonical r) ∧
    (file = [] → Environment.setting? around.environment Environment.levelVariable = none →
      Environment.setting? around.environment Environment.minimumVariable = none →
      s.withOverride path around = .ok s.canonical) ∧
    (around.environment.lookup configPathVariable = some path →
      load around = withOverride {} path around) := by
  have hkeyed := hkeys.keyed hfound
  have hloaded : ∀ r, s.withOverride path around = .ok r ↔
      ComesFrom around.environment file s.canonical r := by
    intro r
    rw [← ofDocument_layered_eq_ok_iff hkeyed hfile henvironment]
    simp only [withOverride, loadOver, hfound]
    cases ofDocument .loaded (s.layered file (Environment.source around.environment)) <;> simp
  refine ⟨s.sameValues_canonical, hloaded, ?_, ?_⟩
  · rintro rfl hlevel hminimum
    exact (hloaded _).2 (comesFrom_nil _ hlevel hminimum)
  · intro hpath
    rw [load, hpath]
    rfl

/-- A file with an empty list of loggers and with level five for the root.  Documents have no
    decidable equality, so it is known by its shape. -/
def isLevelFile : List (String × Document) → Bool
  | [("loggers", .array []), ("root", .table [("level", .integer 5)])] => true
  | _ => false

/-- The shape of the file is all of it. -/
theorem eq_of_isLevelFile (h : isLevelFile file = true) :
    file = [("loggers", .array []), ("root", .table [("level", .integer 5)])] := by
  unfold isLevelFile at h
  split at h
  · rfl
  · cases h

/-- A level in a variable and another one in a file. -/
def overriding : Surroundings where
  environment := [("LOGTREE__ROOT__LEVEL", "700"), ("LOGTREE__ROOT__MINIMUM_LEVEL", "")]
  files := .ofTexts [("/f.toml", "loggers = []\n[root]\nlevel = 5")]

/-- A variable wins over a file, an empty variable does not, and an empty list in the file wins over
    the loggers below. -/
theorem withOverride_of_variable_and_file :
    withOverride ⟨⟨some ⟨"LOUD", 5⟩, none, ["console"]⟩, [⟨"a.b", {}⟩]⟩ "/f.toml" overriding =
      .ok ⟨⟨some .config, none, ["console"]⟩, []⟩ := by
  have hparse : Toml.parse "loggers = []\n[root]\nlevel = 5" =
      some [("loggers", .array []), ("root", .table [("level", .integer 5)])] := by
    have hshape : (Toml.parse "loggers = []\n[root]\nlevel = 5").any isLevelFile = true := by
      decide +kernel
    obtain ⟨file, hfile, hlevel⟩ := (Option.any_eq_true _ _).1 hshape
    rw [hfile, eq_of_isLevelFile hlevel]
  have hfile : IsSettingsFile
      [("loggers", .array []), ("root", .table [("level", .integer 5)])] := by
    constructor
    case plain =>
      rintro entry hentry
      have hplain : ∀ key ∈ ["loggers", "root"], IsPlainKey key := by decide
      exact hplain entry.1 (List.mem_map_of_mem hentry)
    case root =>
      rintro d ⟨⟩
      refine ⟨_, rfl, fun entry hentry => ?_⟩
      rw [List.mem_singleton.1 hentry]
      decide
    case levels =>
      rintro key (rfl | rfl) d hd
      · cases hd
        exact .inl ⟨5, rfl⟩
      · cases hd
    case handlers => rintro d ⟨⟩
    case loggers =>
      rintro d ⟨⟩
      exact ⟨[], rfl⟩
  have hfound : overriding.files.read? "/f.toml" =
      some [("loggers", .array []), ("root", .table [("level", .integer 5)])] := by
    rw [← hparse]
    exact Files.read?_ofTexts (by decide +kernel)
  have henvironment : Environment.SetsRootLevels overriding.environment :=
    ⟨by decide, by decide⟩
  refine ((withOverride_comesFrom _ (Files.keepKeysApart_ofTexts _) hfound hfile
    henvironment).2.1 _).2 ⟨?_, ?_, ?_, ?_⟩
  · exact ⟨.config, rfl, rfl⟩
  · rfl
  · rfl
  · rfl

end TreeSettings

end LoggerHierarchy
