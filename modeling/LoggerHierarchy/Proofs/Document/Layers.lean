import LoggerHierarchy.Document.Merge
import LoggerHierarchy.Proofs.Document.Distinct

namespace LoggerHierarchy.Document

/-!
# What layers leave

What is found in a document after a source was layered over it, key by key:

* `IsPlainKey` — a key in lower case that spells no place deeper in a document;
* `layer_eq_mergeInto` — a source with plain keys is merged in like a table;
* `onTop`, `field?_mergeInto` — the later value wins under each key, and tables are merged;
* `fieldAt?` — the value under a key in the table under another key, as in `root.level`;
  `fieldAt?_mergeInto` and `fieldAt?_layerEntry` say how a table and a path of two keys set it.
-/

open Text.Reader

variable {target value : Document} {source incoming : List (String × Document)} {key : String}

/-! ### Plain keys -/

/-- A key in lower case without the characters that lead from one step of a path to the next. -/
def IsPlainKey (key : String) : Prop :=
  Text.lowerCase key = key ∧ '.' ∉ key.toList ∧ '[' ∉ key.toList

instance (key : String) : Decidable (IsPlainKey key) :=
  inferInstanceAs (Decidable (_ ∧ _ ∧ _))

/-- A path goes on with a dot or an opening bracket only. -/
theorem more_of_ne {c : Char} {cs : List Char} (hdot : c ≠ '.') (hbracket : c ≠ '[') (fuel : Nat)
    (steps : List Step) : Path.more fuel steps (c :: cs) = none := by
  cases fuel with
  | zero => rfl
  | succ fuel =>
    simp [Path.more, skipChar_of_ne hdot, expect_of_ne hbracket.symm]

/-- A path without dots and brackets is a single key. -/
theorem parse?_of_isPlainKey (h : IsPlainKey key) :
    Path.parse? key = none ∨ Path.parse? key = some [.key key] := by
  obtain ⟨-, hdot, hbracket⟩ := h
  have hparts : key.toList.takeWhile Path.isKeyChar ++ key.toList.dropWhile Path.isKeyChar =
      key.toList := List.takeWhile_append_dropWhile
  simp only [Path.parse?, readAll, Path.steps, Path.key, bind_apply, span1_apply]
  split_ifs with hempty
  · exact .inl rfl
  · simp only [Option.bind_some, pure_apply, remaining_apply]
    cases hrest : key.toList.dropWhile Path.isKeyChar with
    | nil =>
      rw [hrest, List.append_nil] at hparts
      refine .inr ?_
      simp [Path.more, hparts]
    | cons c cs =>
      have hc : c ∈ key.toList := by
        rw [← hparts, hrest]
        exact List.mem_append_right _ List.mem_cons_self
      rw [more_of_ne (fun heq => hdot (heq ▸ hc)) (fun heq => hbracket (heq ▸ hc))]
      exact .inl rfl

/-- A plain key is not taken for a path. -/
theorem layerEntry_of_isPlainKey (h : IsPlainKey key) (target value : Document) :
    layerEntry target key value = table (setKey target.entries key value) := by
  rw [layerEntry, h.1]
  rcases parse?_of_isPlainKey h with hparse | hparse
  · rw [hparse]
  · rw [hparse]
    simp only [setPath]

/-- Where no key is a path, a layer is merged key by key. -/
theorem layer_eq_mergeInto (h : ∀ entry ∈ source, IsPlainKey entry.1) (target : Document) :
    layer target source = mergeInto target source := by
  induction source generalizing target with
  | nil => simp [layer, mergeInto]
  | cons entry rest ih =>
    obtain ⟨hkey, hrest⟩ := List.forall_mem_cons.1 h
    rw [mergeInto, ← layerEntry_of_isPlainKey hkey]
    exact ih hrest _

/-! ### Merging tables -/

@[simp] theorem entries_table (entries : List (String × Document)) :
    (table entries).entries = entries := rfl

/-- Entries that are merged key by key, each under the key that it has. -/
structure Mergeable (entries : List (String × Document)) : Prop where
  lower : ∀ entry ∈ entries, Text.lowerCase entry.1 = entry.1
  keys : (entries.map (·.1)).Nodup

/-- A source with plain keys, none of them twice, can be merged. -/
theorem mergeable_of_plain (hplain : ∀ entry ∈ source, IsPlainKey entry.1)
    (hkeys : (source.map (·.1)).Nodup) : Mergeable source :=
  ⟨fun entry hentry => (hplain entry hentry).1, hkeys⟩

/-- A value on top of what is under its key. -/
def onTop (below : Option Document) : Document → Document
  | .table incoming => mergeInto (below.getD (.table [])) incoming
  | value => value

/-- A table is merged into what lies below it, or into nothing. -/
theorem onTop_table (below : Option Document) (incoming : List (String × Document)) :
    onTop below (table incoming) = mergeInto (below.getD (table [])) incoming := rfl

/-- Any other value covers what lies below it. -/
theorem onTop_of_not_table (h : ∀ entries, value ≠ table entries) (below : Option Document) :
    onTop below value = value := by
  cases value with
  | table entries => exact absurd rfl (h entries)
  | _ => rfl

/-- A key in lower case is set under its own name. -/
theorem setKey_of_lowerCase (h : Text.lowerCase key = key) (target : List (String × Document))
    (value : Document) :
    setKey target key value = put target key (onTop (field? target key) value) := by
  cases value <;> simp [setKey, onTop, h]

/-- A key that a source does not have is not found in it. -/
theorem field?_eq_none_of_notMem (h : key ∉ source.map (·.1)) : field? source key = none := by
  induction source with
  | nil => rfl
  | cons entry rest ih =>
    obtain ⟨hne, hrest⟩ : key ≠ entry.1 ∧ key ∉ rest.map (·.1) := by simpa using h
    rw [field?, if_neg hne.symm, ih hrest]

/-- The later value wins under each key, and a table is merged into the one that is there. -/
theorem field?_mergeInto (h : Mergeable incoming) (target : Document) (key : String) :
    field? (mergeInto target incoming).entries key =
      match field? incoming key with
      | some value => some (onTop (field? target.entries key) value)
      | none => field? target.entries key := by
  induction incoming generalizing target with
  | nil => rw [mergeInto, field?]
  | cons entry rest ih =>
    obtain ⟨first, value⟩ := entry
    obtain ⟨hfirst, hrest⟩ := List.forall_mem_cons.1 h.lower
    obtain ⟨hnew, hkeys⟩ := List.nodup_cons.1 h.keys
    rw [mergeInto, ih ⟨hrest, hkeys⟩, entries_table, setKey_of_lowerCase hfirst, field?_put, field?]
    by_cases heq : first = key
    · subst heq
      simp [field?_eq_none_of_notMem hnew]
    · simp [heq, Ne.symm heq]

/-- What is merged into a table is one. -/
theorem exists_mergeInto_eq (entries incoming : List (String × Document)) :
    ∃ merged, mergeInto (table entries) incoming = table merged := by
  induction incoming generalizing entries with
  | nil => exact ⟨entries, by rw [mergeInto]⟩
  | cons entry rest ih =>
    rw [mergeInto]
    exact ih _

/-! ### Values two keys deep -/

variable {outer inner : String}

/-- The value under a key in the table under another key. -/
def fieldAt? (d : Document) (outer inner : String) : Option Document :=
  (field? d.entries outer).bind fun d => field? d.entries inner

/-- A field inside a table is looked up in two steps; a table that is missing has no fields. -/
theorem fieldAt?_eq_getD (d : Document) (outer inner : String) :
    fieldAt? d outer inner = field? ((field? d.entries outer).getD null).entries inner := by
  unfold fieldAt?
  cases field? d.entries outer <;> rfl

/-- A table in a source is merged with the one that is there, where the later value wins. -/
theorem fieldAt?_mergeInto (h : Mergeable incoming)
    (houter : ∀ d, field? incoming outer = some d → ∃ entries, d = table entries ∧
      Mergeable entries)
    (hinner : ∀ d, fieldAt? (table incoming) outer inner = some d → ∀ entries, d ≠ table entries)
    (target : Document) :
    fieldAt? (mergeInto target incoming) outer inner =
      (fieldAt? (table incoming) outer inner).or (fieldAt? target outer inner) := by
  simp only [fieldAt?, field?_mergeInto h, entries_table] at hinner ⊢
  cases hd : field? incoming outer with
  | none => simp
  | some d =>
    obtain ⟨entries, rfl, hentries⟩ := houter d hd
    simp only [hd, Option.bind_some, entries_table] at hinner
    simp only [onTop_table, Option.bind_some, entries_table, field?_mergeInto hentries]
    cases hvalue : field? entries inner with
    | none => cases field? target.entries outer <;> rfl
    | some value => simp [onTop_of_not_table (hinner value hvalue)]

/-- An entry whose key is a path of two keys sets the value there. -/
theorem layerEntry_of_path (hkey : Text.lowerCase key = key)
    (hpath : Path.parse? key = some [.key outer, .key inner])
    (houter : Text.lowerCase outer = outer) (hinner : Text.lowerCase inner = inner)
    (hvalue : ∀ entries, value ≠ table entries) (target : Document) :
    layerEntry target key value = table (put target.entries outer
      (table (put ((field? target.entries outer).getD null).entries inner value))) := by
  rw [layerEntry, hkey, hpath]
  simp only [setPath, houter, setKey_of_lowerCase hinner, onTop_of_not_table hvalue]

/-- Only the value at the path is another one then. -/
theorem fieldAt?_put_put (target value : Document) (outer inner key : String) :
    fieldAt? (table (put target.entries outer
        (table (put ((field? target.entries outer).getD null).entries inner value)))) outer key =
      if key = inner then some value else fieldAt? target outer key := by
  rw [fieldAt?_eq_getD target]
  simp [fieldAt?]

end LoggerHierarchy.Document
