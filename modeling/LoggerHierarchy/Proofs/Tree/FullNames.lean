import LoggerHierarchy.Proofs.Name.FullName
import LoggerHierarchy.Proofs.Tree.Course
import LoggerHierarchy.Settings.Basic

namespace LoggerHierarchy

/-!
# Full names in a tree

* `TreeSettings.entry?` — which entry of the settings is read under a name;
  `TreeSettings.eq_of_entry?` — none is read under two names;
* `Tree.Shaped.name_eq_full` — the name of every node that was ever made is the full name of its
  path;
* `Tree.Situation.Reachable.eq_of_name_eq` — in every run nodes are told by their names, and so are
  the entries that they read.
-/

/-! ### Entries of settings -/

namespace TreeSettings

/-- An entry of settings, apart from what it says. -/
inductive Entry where
  | root
  | listed (index : Nat)
  deriving DecidableEq

/-- The entry that is read under a name. -/
def entry? (settings : TreeSettings) (name : String) : Option Entry :=
  if name = "" then some .root
  else (settings.loggers.findIdx? (·.name = name)).map .listed

/-- What an entry says. -/
def said (settings : TreeSettings) : Entry → Option LoggerSettings
  | .root => some settings.root
  | .listed index => (settings.loggers[index]?).map (·.settings)

/-- What is found under a name is what its entry says. -/
theorem lookup_eq_entry?_bind (settings : TreeSettings) (name : String) :
    settings.lookup name = (settings.entry? name).bind settings.said := by
  unfold lookup entry?
  split
  · rfl
  · rw [List.find?_eq_bind_findIdx?_getElem?]
    cases settings.loggers.findIdx? (·.name = name) <;> rfl

/-- The name that an entry is read under. -/
theorem eq_of_entry? {settings : TreeSettings} {name other : String} {entry : Entry}
    (hname : settings.entry? name = some entry) (hother : settings.entry? other = some entry) :
    name = other := by
  unfold entry? at hname hother
  split at hname
  · rename_i hempty
    obtain rfl := Option.some.inj hname
    split at hother
    · rename_i hempty'
      rw [hempty, hempty']
    · exact absurd hother (by simp)
  · split at hother
    · obtain rfl := Option.some.inj hother
      exact absurd hname (by simp)
    · obtain ⟨i, hi, rfl⟩ := Option.map_eq_some_iff.1 hname
      obtain ⟨j, hj, hij⟩ := Option.map_eq_some_iff.1 hother
      obtain rfl := Entry.listed.inj hij
      obtain ⟨hlt, hsame, -⟩ := List.findIdx?_eq_some_iff_getElem.1 hi
      obtain ⟨_, hsame', -⟩ := List.findIdx?_eq_some_iff_getElem.1 hj
      exact (of_decide_eq_true hsame).symm.trans (of_decide_eq_true hsame')

end TreeSettings

namespace Tree

variable {may : Answers} {t : Tree} {n m : NodeId} {p : Place}

/-! ### Names and paths -/

/-- Only the root has an empty path. -/
theorem Shaped.path_eq_nil_iff (h : t.Shaped) (hp : t.place? n = some p) :
    t.path n = [] ↔ n = root := by
  by_cases hn : n = root
  · rw [hn, h.path_root]
    simp
  · obtain ⟨m, q, hparent, -⟩ := h.parent hp hn
    rw [h.path_of_place? hp hparent]
    simp [hn]

/-- Only the root has an empty path. -/
theorem Shaped.isEmpty_path (h : t.Shaped) (hp : t.place? n = some p) :
    (t.path n).isEmpty = decide (n = root) := by
  rw [Bool.eq_iff_iff, List.isEmpty_iff, h.path_eq_nil_iff hp, decide_eq_true_iff]

/-- Every node is named after its path. -/
theorem Shaped.name_eq_full (h : t.Shaped) (hp : t.place? n = some p) :
    p.name = Name.full (t.path n) := by
  induction n using Nat.strongRecOn generalizing p with
  | ind n ih =>
    by_cases hn : n = root
    · obtain ⟨r, hr, -, hname, -⟩ := h.top
      subst hn
      rw [h.path_root, ← Option.some.inj (hr.symm.trans hp), hname]
      rfl
    · obtain ⟨m, q, hparent, hlt, hq, hname, -⟩ := h.parent hp hn
      rw [h.path_of_place? hp hparent, Name.full_concat, hname, ih m hlt hq,
        h.isEmpty_path hq]

/-- So is every child that is asked about. -/
theorem Shaped.childName_eq_full (h : t.Shaped) (hn : t.Exists n) (segment : String) :
    t.childName n segment = Name.full (t.path n ++ [segment]) := by
  obtain ⟨p, hp⟩ := hn
  rw [h.childName_eq hp, Name.full_concat, h.name_eq_full hp, h.isEmpty_path hp]

/-- The name of a node is the full name of the path to it. -/
theorem Shaped.name_eq (h : t.Shaped) (hn : t.Exists n) : t.name n = Name.full (t.path n) := by
  obtain ⟨p, hp⟩ := hn
  rw [← h.name_eq_full hp, name_of_place? hp]

/-- Nodes of equal names have equal paths. -/
theorem Shaped.path_eq_of_name_eq (h : t.Shaped) (hn : t.Exists n) (hm : t.Exists m)
    (hname : t.name n = t.name m) : t.path n = t.path m := by
  rw [h.name_eq hn, h.name_eq hm] at hname
  exact Name.full_injective (h.undotted_path n) (h.undotted_path m) hname

/-- A node in the tree was made. -/
theorem IsAttached.exists (hn : t.IsAttached n) : t.Exists n := by
  obtain ⟨p, hp, -⟩ := hn
  exact ⟨p, hp⟩

/-! ### In every run -/

/-- A path of segments without dots is told by its full name.  In every run, all nodes that were
    ever made, and all that could be made below them, are named after paths of such segments; so no
    two nodes of the tree have one name, and nodes with different paths read different entries of
    any settings. -/
theorem Situation.Reachable.eq_of_name_eq {s : Situation} (h : Reachable may s) :
    (∀ path other : List String, (∀ segment ∈ path, '.' ∉ segment.toList) →
      (∀ segment ∈ other, '.' ∉ segment.toList) → Name.full path = Name.full other →
        path = other) ∧
    (∀ n, s.tree.Exists n → s.tree.name n = Name.full (s.tree.path n) ∧
      (∀ segment, s.tree.childName n segment = Name.full (s.tree.path n ++ [segment])) ∧
      ∀ segment ∈ s.tree.path n, '.' ∉ segment.toList) ∧
    (∀ n m, s.tree.contains n = true → s.tree.contains m = true →
      s.tree.name n = s.tree.name m → n = m) ∧
    ∀ (settings : TreeSettings) (entry : TreeSettings.Entry) (n m : NodeId),
      s.tree.Exists n → s.tree.Exists m → settings.entry? (s.tree.name n) = some entry →
      settings.entry? (s.tree.name m) = some entry → s.tree.path n = s.tree.path m := by
  have hshaped := h.wellFormed.shaped
  refine ⟨fun _ _ => Name.full_injective, ?_, ?_, ?_⟩
  · intro n hn
    exact ⟨hshaped.name_eq hn, hshaped.childName_eq_full hn, hshaped.undotted_path n⟩
  · intro n m hn hm hname
    have hn := hshaped.contains_iff.1 hn
    have hm := hshaped.contains_iff.1 hm
    exact hshaped.eq_of_path_eq hn hm (hshaped.path_eq_of_name_eq hn.exists hm.exists hname)
  · intro settings entry n m hn hm hentry hentry'
    exact hshaped.path_eq_of_name_eq hn hm (TreeSettings.eq_of_entry? hentry hentry')

/-- So it is for the nodes on a path with an empty segment. -/
theorem name_ne_of_empty_segment :
    let s := (Situation.initial {}).after {} (.getOrCreate root "a..b")
    s.tree.name 1 = "a" ∧ s.tree.name 2 = "a." ∧ s.tree.name 3 = "a..b" ∧
      s.tree.name 2 ≠ s.tree.name 3 := by
  have hreachable := (Situation.reachable_initial {}).after (.getOrCreate root "a..b")
    (.inr ⟨rfl, rfl⟩) rfl
  obtain ⟨-, -, hapart, -⟩ := Situation.Reachable.eq_of_name_eq hreachable
  refine ⟨by decide +kernel, by decide +kernel, by decide +kernel, ?_⟩
  intro hname
  exact absurd (hapart 2 3 (by decide +kernel) (by decide +kernel) hname) (by decide)

end Tree

end LoggerHierarchy
