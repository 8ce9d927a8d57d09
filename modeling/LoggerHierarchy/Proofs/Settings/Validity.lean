import LoggerHierarchy.Settings.Basic
import Mathlib.Data.List.Nodup

namespace LoggerHierarchy.TreeSettings

/-!
# Valid settings

What the check of settings lets pass, and what it says of all others:

* `IsNamed` — entries of which each has a name of its own;
* `IsAtFault` — the fault of an entry that comes after certain names, and `IsSaidOf` what is said
  of it in words;
* `nameFault?_eq_none_iff`, `nameFault?_eq_some_iff` — the check of the names passes entries with
  names of their own only, and otherwise says what is wrong with the first one that is at fault;
* `lookup_of_isNamed`, `lookup_eq_of_perm` — among entries with names of their own each is found
  under its name, in whatever order they stand;
* `validate_exact` — what the check of all settings says, in words too, and what valid ones hold for
  each name.
-/

variable {s : TreeSettings} {entries entries' before after : List NamedSettings}
  {entry : NamedSettings} {fault : SettingsFault} {names names' seen : List String} {text : String}

/-- Whether every entry has a name, and no two have the same. -/
structure IsNamed (entries : List NamedSettings) : Prop where
  ne_empty : ∀ entry ∈ entries, entry.name ≠ ""
  nodup : (entries.map (·.name)).Nodup

/-- The fault of an entry after entries with certain names. -/
inductive IsAtFault (names : List String) (entry : NamedSettings) : SettingsFault → Prop where
  | unnamed (hname : entry.name = "") : IsAtFault names entry .unnamed
  | duplicate (hname : entry.name ≠ "") (hmem : entry.name ∈ names) :
    IsAtFault names entry (.duplicate entry.name)

/-- What is said of an entry after entries with certain names: that it has no name, or that its name
    was there before, with the name. -/
inductive IsSaidOf (names : List String) (entry : NamedSettings) : String → Prop where
  | unnamed (hname : entry.name = "") : IsSaidOf names entry
      "logger entries must have a non-empty name; use [root] for the root logger"
  | duplicate (hname : entry.name ≠ "") (hmem : entry.name ∈ names) :
    IsSaidOf names entry ("duplicate logger entry: " ++ entry.name)

/-- Whether the root has a floor with the severity of `OFF`, under whatever name. -/
def IsRootOff (s : TreeSettings) : Prop :=
  ∃ level ∈ s.root.minimum, level.value = Level.off.value

/-- Nothing is wrong with the names of no entries. -/
theorem isNamed_nil : IsNamed [] where
  ne_empty := by simp
  nodup := List.nodup_nil

/-- One more entry needs a name, and no other may have it. -/
theorem isNamed_cons : IsNamed (entry :: entries) ↔
    entry.name ≠ "" ∧ (∀ other ∈ entries, other.name ≠ entry.name) ∧ IsNamed entries := by
  constructor
  · rintro ⟨hne, hnodup⟩
    rw [List.forall_mem_cons] at hne
    rw [List.map_cons, List.nodup_cons] at hnodup
    exact ⟨hne.1, by simpa using hnodup.1, hne.2, hnodup.2⟩
  · rintro ⟨hname, hother, hne, hnodup⟩
    refine ⟨List.forall_mem_cons.2 ⟨hname, hne⟩, ?_⟩
    rw [List.map_cons, List.nodup_cons]
    exact ⟨by simpa using hother, hnodup⟩

/-- The order of entries does not matter to their names. -/
theorem IsNamed.perm (h : IsNamed entries) (hperm : entries'.Perm entries) : IsNamed entries' where
  ne_empty other hother := h.ne_empty other (hperm.mem_iff.1 hother)
  nodup := (hperm.map _).nodup_iff.2 h.nodup

/-- An entry that is at fault after certain names is so after more of them. -/
theorem IsAtFault.mono (h : IsAtFault names entry fault)
    (hmore : names ⊆ names') : IsAtFault names' entry fault := by
  cases h with
  | unnamed hname => exact .unnamed hname
  | duplicate hname hmem => exact .duplicate hname (hmore hmem)

/-- The wording of a fault says what is wrong with the entry. -/
theorem isSaidOf_iff :
    IsSaidOf names entry text ↔ ∃ fault, IsAtFault names entry fault ∧ fault.message = text := by
  constructor
  · rintro (hname | ⟨hname, hmem⟩)
    · exact ⟨.unnamed, .unnamed hname, rfl⟩
    · exact ⟨.duplicate entry.name, .duplicate hname hmem, rfl⟩
  · rintro ⟨fault, hname | ⟨hname, hmem⟩, rfl⟩
    · exact .unnamed hname
    · exact .duplicate hname hmem

/-! ### The check of the names -/

/-- An entry is at fault, or it has a new name. -/
theorem isAtFault_or_new (seen : List String) (entry : NamedSettings) :
    (∃ fault, IsAtFault seen entry fault) ∨ entry.name ≠ "" ∧ entry.name ∉ seen := by
  by_cases hname : entry.name = ""
  · exact .inl ⟨_, .unnamed hname⟩
  · by_cases hmem : entry.name ∈ seen
    · exact .inl ⟨_, .duplicate hname hmem⟩
    · exact .inr ⟨hname, hmem⟩

/-- An entry that is at fault is refused where the check comes to it. -/
theorem nameFault?_of_isAtFault (h : IsAtFault seen entry fault) :
    nameFault? seen (entry :: after) = some fault := by
  cases h with
  | unnamed hname => simp [nameFault?, hname]
  | duplicate hname hmem => simp [nameFault?, hname, hmem]

/-- The check goes past an entry with a new name, and keeps the name in mind. -/
theorem nameFault?_of_new (hname : entry.name ≠ "") (hnew : entry.name ∉ seen) :
    nameFault? seen (entry :: after) = nameFault? (entry.name :: seen) after := by
  simp [nameFault?, hname, hnew]

/-- A new name after some others, and the names that are new after it. -/
theorem isNamed_cons_and_new : (IsNamed (entry :: entries) ∧
      ∀ other ∈ entry :: entries, other.name ∉ seen) ↔
    (entry.name ≠ "" ∧ entry.name ∉ seen) ∧
      IsNamed entries ∧ ∀ other ∈ entries, other.name ∉ entry.name :: seen := by
  rw [isNamed_cons, List.forall_mem_cons]
  constructor
  · rintro ⟨⟨hname, hother, hnamed⟩, hfirst, hnew⟩
    refine ⟨⟨hname, hfirst⟩, hnamed, fun other hmem => ?_⟩
    exact List.not_mem_cons_of_ne_of_not_mem (hother other hmem) (hnew other hmem)
  · rintro ⟨⟨hname, hfirst⟩, hnamed, hnew⟩
    refine ⟨⟨hname, fun other hmem => ?_, hnamed⟩, hfirst, fun other hmem => ?_⟩
    · exact List.ne_of_not_mem_cons (hnew other hmem)
    · exact List.not_mem_of_not_mem_cons (hnew other hmem)

/-- What the check of the names lets pass after the names in `seen`. -/
theorem nameFault?_eq_none_iff_new : nameFault? seen entries = none ↔
    IsNamed entries ∧ ∀ other ∈ entries, other.name ∉ seen := by
  induction entries generalizing seen with
  | nil => simp [nameFault?, isNamed_nil]
  | cons first rest ih =>
    rw [isNamed_cons_and_new]
    obtain ⟨fault, hfault⟩ | ⟨hname, hfirst⟩ := isAtFault_or_new seen first
    · rw [nameFault?_of_isAtFault hfault]
      cases hfault with
      | unnamed hname => simp [hname]
      | duplicate hname hmem => simp [hmem]
    · rw [nameFault?_of_new hname hfirst, ih,
        and_iff_right (a := first.name ≠ "" ∧ first.name ∉ seen) ⟨hname, hfirst⟩]

/-- What the check of the names lets pass. -/
theorem nameFault?_eq_none_iff : nameFault? [] entries = none ↔ IsNamed entries := by
  rw [nameFault?_eq_none_iff_new]
  simp

/-- The check goes past entries with new names, and keeps the names in mind. -/
theorem nameFault?_append (hnamed : IsNamed before) (hnew : ∀ other ∈ before, other.name ∉ seen) :
    nameFault? seen (before ++ entries) =
      nameFault? ((before.map (·.name)).reverse ++ seen) entries := by
  induction before generalizing seen with
  | nil => rfl
  | cons first before ih =>
    obtain ⟨⟨hname, hfirst⟩, hrest, hnext⟩ := isNamed_cons_and_new.1 ⟨hnamed, hnew⟩
    rw [List.cons_append, nameFault?_of_new hname hfirst, ih hrest hnext]
    simp

/-- What the check refuses splits at the first entry that is at fault. -/
theorem exists_isAtFault (h : nameFault? seen entries = some fault) :
    ∃ before entry after, entries = before ++ entry :: after ∧
      (IsNamed before ∧ ∀ other ∈ before, other.name ∉ seen) ∧
      IsAtFault ((before.map (·.name)).reverse ++ seen) entry fault := by
  induction entries generalizing seen with
  | nil => exact absurd h (by simp [nameFault?])
  | cons first rest ih =>
    obtain ⟨found, hfault⟩ | ⟨hname, hfirst⟩ := isAtFault_or_new seen first
    · obtain rfl := Option.some.inj ((nameFault?_of_isAtFault hfault).symm.trans h)
      exact ⟨[], first, rest, rfl, ⟨isNamed_nil, by simp⟩, hfault⟩
    · rw [nameFault?_of_new hname hfirst] at h
      obtain ⟨before, entry, after, rfl, hbefore, hfault⟩ := ih h
      exact ⟨first :: before, entry, after, rfl,
        isNamed_cons_and_new.2 ⟨⟨hname, hfirst⟩, hbefore⟩, by simpa using hfault⟩

/-- What the check of the names says of all others: the fault of the first entry that is at
    fault. -/
theorem nameFault?_eq_some_iff : nameFault? [] entries = some fault ↔
    ∃ before entry after, entries = before ++ entry :: after ∧ IsNamed before ∧
      IsAtFault (before.map (·.name)) entry fault := by
  constructor
  · intro h
    obtain ⟨before, entry, after, hsplit, ⟨hnamed, -⟩, hfault⟩ := exists_isAtFault h
    exact ⟨before, entry, after, hsplit, hnamed, hfault.mono (by simp)⟩
  · rintro ⟨before, entry, after, rfl, hnamed, hfault⟩
    rw [nameFault?_append hnamed (by simp), nameFault?_of_isAtFault (hfault.mono (by simp))]

/-! ### The check of all settings -/

/-- The fault of the root, which is looked at last. -/
theorem rootFault_eq_some_iff :
    (if s.root.minimum.any (· == .off) then some SettingsFault.rootOff else none) = some fault ↔
      s.IsRootOff ∧ fault = .rootOff := by
  have hoff : s.root.minimum.any (· == .off) = true ↔ s.IsRootOff := by
    unfold IsRootOff
    cases s.root.minimum <;> simp
  split
  · rename_i h
    simp [hoff.1 h, eq_comm]
  · rename_i h
    simp [mt hoff.2 h]

/-- No fault is found just when there is none to find. -/
theorem fault?_eq_none_iff : s.fault? = none ↔ IsNamed s.loggers ∧ ¬ s.IsRootOff := by
  rw [fault?, Option.or_eq_none_iff, nameFault?_eq_none_iff, Option.eq_none_iff_forall_ne_some]
  simp only [ne_eq, rootFault_eq_some_iff]
  simp

/-- The fault that is found is that of the first entry at fault or, if no entry is, of the
    root. -/
theorem fault?_eq_some_iff : s.fault? = some fault ↔
    (∃ before entry after, s.loggers = before ++ entry :: after ∧ IsNamed before ∧
      IsAtFault (before.map (·.name)) entry fault) ∨
    IsNamed s.loggers ∧ s.IsRootOff ∧ fault = .rootOff := by
  rw [fault?, Option.or_eq_some_iff, nameFault?_eq_some_iff, nameFault?_eq_none_iff,
    rootFault_eq_some_iff]

/-- Settings pass when every entry has a name of its own and the root is not switched off. -/
theorem validate_eq_ok_iff : s.validate = .ok () ↔ IsNamed s.loggers ∧ ¬ s.IsRootOff := by
  rw [← fault?_eq_none_iff, validate]
  cases s.fault? <;> simp

/-- The error is the fault that is found. -/
theorem validate_eq_error_iff : s.validate = .error fault ↔ s.fault? = some fault := by
  unfold validate
  cases s.fault? <;> simp

/-- What a refusal says in words. -/
theorem exists_validate_eq_error_iff :
    (∃ fault, s.validate = .error fault ∧ fault.message = text) ↔
      (∃ before entry after, s.loggers = before ++ entry :: after ∧ IsNamed before ∧
        IsSaidOf (before.map (·.name)) entry text) ∨
      IsNamed s.loggers ∧ s.IsRootOff ∧
        text = "root minimum_level OFF would disable every logger" := by
  simp only [validate_eq_error_iff, fault?_eq_some_iff, isSaidOf_iff]
  constructor
  · rintro ⟨fault, ⟨before, entry, after, hsplit, hnamed, hfault⟩ | ⟨hnamed, hroot, rfl⟩, rfl⟩
    · exact .inl ⟨before, entry, after, hsplit, hnamed, fault, hfault, rfl⟩
    · exact .inr ⟨hnamed, hroot, rfl⟩
  · rintro (⟨before, entry, after, hsplit, hnamed, fault, hfault, rfl⟩ | ⟨hnamed, hroot, rfl⟩)
    · exact ⟨fault, .inl ⟨before, entry, after, hsplit, hnamed, hfault⟩, rfl⟩
    · exact ⟨.rootOff, .inr ⟨hnamed, hroot, rfl⟩, rfl⟩

/-! ### What is found -/

/-- Entries with names of their own are found under their names, in whatever order they stand. -/
theorem find?_eq_some_iff_mem (h : IsNamed entries) (name : String) :
    entries.find? (·.name = name) = some entry ↔ entry ∈ entries ∧ entry.name = name := by
  constructor
  · intro hfind
    exact ⟨List.mem_of_find?_eq_some hfind, by simpa using List.find?_some hfind⟩
  · rintro ⟨hmem, rfl⟩
    cases hfind : entries.find? (·.name = entry.name) with
    | none => simpa using List.find?_eq_none.1 hfind entry hmem
    | some other =>
      have hother : other.name = entry.name := by simpa using List.find?_some hfind
      rw [List.inj_on_of_nodup_map h.nodup (List.mem_of_find?_eq_some hfind) hmem hother]

/-- Where names are distinct, an entry is found by its name in any order of the entries. -/
theorem find?_eq_of_perm (h : IsNamed entries) (hperm : entries'.Perm entries) (name : String) :
    entries'.find? (·.name = name) = entries.find? (·.name = name) := by
  ext entry
  rw [find?_eq_some_iff_mem (h.perm hperm), find?_eq_some_iff_mem h, hperm.mem_iff]

/-- What each name stands for, among entries with names of their own. -/
theorem lookup_of_isNamed (h : IsNamed s.loggers) {entry : NamedSettings}
    (hentry : entry ∈ s.loggers) : s.lookup entry.name = some entry.settings := by
  rw [lookup, if_neg (h.ne_empty entry hentry), (find?_eq_some_iff_mem h _).2 ⟨hentry, rfl⟩]
  rfl

/-- An entry of valid settings is found under its name, which is not the root's. -/
theorem lookup_of_validate {settings : TreeSettings} (h : settings.validate = .ok ())
    {entry : NamedSettings} (hentry : entry ∈ settings.loggers) :
    entry.name ≠ "" ∧ settings.lookup entry.name = some entry.settings := by
  obtain ⟨hnamed, -⟩ := validate_eq_ok_iff.1 h
  exact ⟨hnamed.ne_empty entry hentry, lookup_of_isNamed hnamed hentry⟩

/-- A name that no entry has, and that is not the root's, has no settings. -/
theorem lookup_eq_none (name : String) (hname : name ≠ "")
    (hother : ∀ entry ∈ s.loggers, entry.name ≠ name) : s.lookup name = none := by
  rw [lookup, if_neg hname, List.find?_eq_none.2 (by simpa using hother)]
  rfl

/-- The settings for a name do not depend on the order of the entries. -/
theorem lookup_eq_of_perm (h : IsNamed s.loggers) (hperm : entries'.Perm s.loggers)
    (name : String) : lookup { s with loggers := entries' } name = s.lookup name := by
  simp only [lookup, find?_eq_of_perm h hperm]

/-! ### In full -/

/-- The check passes settings iff each of their entries has a name of its own and the root has no
    floor with the severity of `OFF`.  Of all others it says what is wrong with the first entry
    that has no name or that of an earlier one, which it then names, or, where there is none, that
    the root is off.  Of settings that pass, every entry is found under its name, the root under
    the empty one and nothing under any other; and in whatever order their entries are written,
    they pass and the same is found. -/
theorem validate_exact (s : TreeSettings) :
    (s.validate = .ok () ↔ IsNamed s.loggers ∧ ¬ s.IsRootOff) ∧
    (∀ fault, s.validate = .error fault ↔
      (∃ before entry after, s.loggers = before ++ entry :: after ∧ IsNamed before ∧
        IsAtFault (before.map (·.name)) entry fault) ∨
      IsNamed s.loggers ∧ s.IsRootOff ∧ fault = .rootOff) ∧
    (∀ text, (∃ fault, s.validate = .error fault ∧ fault.message = text) ↔
      (∃ before entry after, s.loggers = before ++ entry :: after ∧ IsNamed before ∧
        IsSaidOf (before.map (·.name)) entry text) ∨
      IsNamed s.loggers ∧ s.IsRootOff ∧
        text = "root minimum_level OFF would disable every logger") ∧
    (s.validate = .ok () →
      (∀ entry ∈ s.loggers, s.lookup entry.name = some entry.settings) ∧
      s.lookup "" = some s.root ∧
      (∀ name, name ≠ "" → (∀ entry ∈ s.loggers, entry.name ≠ name) → s.lookup name = none) ∧
      ∀ entries : List NamedSettings, entries.Perm s.loggers →
        validate { s with loggers := entries } = .ok () ∧
        ∀ name, lookup { s with loggers := entries } name = s.lookup name) := by
  refine ⟨validate_eq_ok_iff, ?_, fun text => exists_validate_eq_error_iff, ?_⟩
  · intro fault
    rw [validate_eq_error_iff, fault?_eq_some_iff]
  · intro hvalid
    obtain ⟨hnamed, hroot⟩ := validate_eq_ok_iff.1 hvalid
    refine ⟨fun entry hentry => lookup_of_isNamed hnamed hentry, lookup_empty s, lookup_eq_none, ?_⟩
    intro entries hperm
    exact ⟨validate_eq_ok_iff.2 ⟨hnamed.perm hperm, hroot⟩, lookup_eq_of_perm hnamed hperm⟩

/-- Settings for a logger and for one below it. -/
def nested : TreeSettings where
  loggers := [⟨"a", { level := some .warn }⟩, ⟨"a.b", { level := some .debug }⟩]

/-- The same with a second entry for the first name, before one without a name, and with a root that
    is off. -/
def repeated : TreeSettings where
  root := { level := some .info, minimum := some ⟨"SILENT", Level.off.value⟩ }
  loggers := nested.loggers ++ [⟨"a", {}⟩, ⟨"", {}⟩]

/-- The entries of the first settings are found the same when the second one is written first; of
    the other settings the repeated name is said, and nothing of what comes after it. -/
theorem nested_passes_repeated_fails :
    nested.validate = .ok () ∧
      validate { nested with loggers := nested.loggers.reverse } = .ok () ∧
      lookup { nested with loggers := nested.loggers.reverse } "a.b" =
        some { level := some .debug } ∧
      ∃ fault, repeated.validate = .error fault ∧ fault.message = "duplicate logger entry: a" := by
  have hvalid : nested.validate = .ok () := rfl
  obtain ⟨-, -, -, hfound⟩ := validate_exact nested
  obtain ⟨hentry, -, -, hperm⟩ := hfound hvalid
  obtain ⟨hreversed, hsame⟩ := hperm _ (List.reverse_perm nested.loggers)
  obtain ⟨-, -, hsaid, -⟩ := validate_exact repeated
  refine ⟨hvalid, hreversed, ?_, (hsaid _).2 (.inl ?_)⟩
  · rw [hsame]
    exact hentry ⟨"a.b", { level := some .debug }⟩ (by simp [nested])
  · refine ⟨nested.loggers, ⟨"a", {}⟩, [⟨"", {}⟩], rfl, (validate_eq_ok_iff.1 hvalid).1, ?_⟩
    exact .duplicate (by simp) (by simp [nested])

end LoggerHierarchy.TreeSettings
