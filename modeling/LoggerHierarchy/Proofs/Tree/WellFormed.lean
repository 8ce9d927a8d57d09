import LoggerHierarchy.Proofs.Tree.Growth
import LoggerHierarchy.Tree.Pruning
import LoggerHierarchy.Tree.Registry

namespace LoggerHierarchy.Tree

/-!
# Well-formed trees

What holds of a tree whenever the outside may look at it, and one lemma for each change of a tree
that keeps it:

* `Leveled` — the effective level of a node is the maximum of its floor and of its own level or,
  where none is set, of its parent's effective level;
* `Floored` — the floor of a node is what was answered for its name, else its parent's;
* `WellFormed` — both, in a tree of the right shape;
* `Later` — a well-formed tree that has grown out of another one;
* `WellFormed.later_of_nodes`, `later_update` — changes of references and of settings that have
  nothing to do with levels.
-/

/-- The answers that the outside may give. -/
abbrev Answers : Type :=
  (q : Question) → q.Answer → Prop

variable {may : Answers} {t u : Tree} {n m c : NodeId} {node : Node} {p : Place}

/-! ### The invariant -/

/-- The severity that a node's own level stands for or, where none is set, the effective level of
    its parent. -/
def governing (t : Tree) (node : Node) : Option Int32 :=
  match node.level with
  | some level => some level.value
  | none => node.parent?.map t.effective

/-- Whether the effective level of a node is the one that its settings and its parent call for. -/
def IsLeveled (t : Tree) (node : Node) : Prop :=
  ∃ severity, t.governing node = some severity ∧ node.effective = max node.minimum severity

def Leveled (t : Tree) : Prop :=
  ∀ ⦃n node⦄, t.node? n = some node → node.attached = true → t.IsLeveled node

def Floored (may : Answers) (t : Tree) : Prop :=
  ∀ ⦃n p⦄, t.place? n = some p → ∃ answer : Option Level, may (.minimum p.name) answer ∧
    p.minimum = (answer.map (·.value)).getD
      (match p.parent? with
      | some m => t.minimum m
      | none => defaultRootLevel.value)

/-- What holds of a tree whenever the outside may look at it. -/
structure WellFormed (may : Answers) (t : Tree) : Prop where
  shaped : t.Shaped
  leveled : t.Leveled
  floored : t.Floored may

/-- A well-formed tree that has grown out of another one. -/
structure Later (may : Answers) (t u : Tree) : Prop where
  wellFormed : u.WellFormed may
  grows : Grows t u

theorem Later.trans {v : Tree} (htu : Later may t u) (huv : Later may u v) : Later may t v :=
  ⟨huv.wellFormed, htu.grows.trans huv.grows⟩

/-- A well-formed tree has grown out of itself. -/
theorem WellFormed.later_self (h : t.WellFormed may) : Later may t t :=
  ⟨h, Grows.refl t⟩

/-- The effective level of an attached node without a level of its own. -/
theorem WellFormed.effective_of_inherits (h : t.WellFormed may) (hnode : t.node? n = some node)
    (hattached : node.attached = true) (hlevel : node.level = none)
    (hparent : node.parent? = some m) :
    t.effective n = max (t.minimum n) (t.effective m) := by
  obtain ⟨severity, hgoverning, hdue⟩ := h.leveled hnode hattached
  have hseverity : t.effective m = severity := by
    simpa [governing, hlevel, hparent] using hgoverning
  have heffective : t.effective n = node.effective := by simp [effective, hnode]
  have hminimum : t.minimum n = node.minimum := by simp [minimum, hnode]
  rw [heffective, hminimum, hseverity, hdue]

/-! ### Changes that leave every node in its place -/

/-- The floor of a node is kept with its place. -/
theorem minimum_eq (t : Tree) (n : NodeId) :
    t.minimum n = ((t.place? n).map (·.minimum)).getD 0 := by
  cases h : t.node? n <;> simp [minimum, place?, h, Node.place]

/-- The shape of a tree depends on places, as long as references are to attached nodes. -/
theorem Shaped.congr (h : t.Shaped) (hplace : ∀ n, u.place? n = t.place? n)
    (href : ∀ n, n ∈ u.held ∨ n ∈ u.pins → t.IsAttached n) : u.Shaped where
  top := by rw [hplace]; exact h.top
  parent hp hn := by simp only [hplace] at hp ⊢; exact h.parent hp hn
  unique hp hq := by rw [hplace] at hp hq; exact h.unique hp hq
  undotted hp := by rw [hplace] at hp; exact h.undotted hp
  capacity hp := by rw [hplace] at hp; exact h.capacity hp
  referenced hn := by simp only [IsAttached, hplace]; exact href _ hn

/-- The floors of a tree depend on the places of its nodes alone. -/
theorem Floored.congr (h : t.Floored may) (hplace : ∀ n, u.place? n = t.place? n) :
    u.Floored may := by
  intro n p hp
  simp only [minimum_eq, hplace] at hp ⊢
  simpa only [minimum_eq] using h hp

/-- A node stays leveled while its settings and the effective level of its parent do. -/
theorem IsLeveled.congr {node' : Node} (h : t.IsLeveled node)
    (hplace : node'.place = { node.place with attached := node'.attached })
    (hlevel : node'.level = node.level) (heffective : node'.effective = node.effective)
    (hparent : ∀ m, node.parent? = some m → u.effective m = t.effective m) :
    u.IsLeveled node' := by
  obtain ⟨severity, hgoverning, heq⟩ := h
  have hminimum : node'.minimum = node.minimum := congrArg Place.minimum hplace
  have hsame : node'.parent? = node.parent? := congrArg Place.parent? hplace
  refine ⟨severity, ?_, by rw [heffective, hminimum, heq]⟩
  rw [← hgoverning]
  unfold governing
  rw [hlevel, hsame]
  cases node.level with
  | some level => rfl
  | none =>
    cases h : node.parent? with
    | none => rfl
    | some m => simp [hparent m h]

/-- A change that leaves every node in its place need only keep levels. -/
theorem WellFormed.later_of_place? (h : t.WellFormed may) (hplace : ∀ n, u.place? n = t.place? n)
    (href : ∀ n, n ∈ u.held ∨ n ∈ u.pins → t.IsAttached n) (hleveled : u.Leveled) :
    Later may t u := by
  have hwf : u.WellFormed may := ⟨h.shaped.congr hplace href, hleveled, h.floored.congr hplace⟩
  exact ⟨hwf, Grows.of_place? hplace⟩

/-- References may be taken to attached nodes, and given up. -/
theorem WellFormed.later_of_nodes (h : t.WellFormed may) (hnodes : u.nodes = t.nodes)
    (href : ∀ n, n ∈ u.held ∨ n ∈ u.pins → t.IsAttached n) : Later may t u := by
  have hnode : ∀ n, u.node? n = t.node? n := fun n => by simp only [node?, hnodes]
  have hplace : ∀ n, u.place? n = t.place? n := fun n => by simp only [place?, hnode]
  have heffective : ∀ n, u.effective n = t.effective n := fun n => by simp only [effective, hnode]
  refine h.later_of_place? hplace href ?_
  intro n node hn hattached
  rw [hnode] at hn
  exact (h.leveled hn hattached).congr rfl rfl rfl fun m _ => heffective m

/-- A change of settings moves no node. -/
theorem place?_update {f : Node → Node}
    (hf : ∀ node, t.node? n = some node → (f node).place = node.place) (c : NodeId) :
    (t.update n f).place? c = t.place? c := by
  simp only [place?, node?_update]
  split
  · rename_i hc
    cases hnode : t.node? c with
    | none => rfl
    | some node => simp [hf node (hc ▸ hnode)]
  · rfl

/-- Settings that have nothing to do with levels may be changed at will. -/
theorem WellFormed.later_update {f : Node → Node} (h : t.WellFormed may)
    (hf : ∀ node, t.node? n = some node → (f node).place = node.place ∧
      (f node).level = node.level ∧ (f node).effective = node.effective) :
    Later may t (t.update n f) := by
  -- every node of the new tree is an old one, with the same place and levels
  have hnode : ∀ c node', (t.update n f).node? c = some node' → ∃ node, t.node? c = some node ∧
      node'.place = node.place ∧ node'.level = node.level ∧ node'.effective = node.effective := by
    intro c node' hnode'
    rw [node?_update] at hnode'
    split at hnode'
    · rename_i hc
      obtain ⟨node, hnode, rfl⟩ := Option.map_eq_some_iff.1 hnode'
      exact ⟨node, hnode, hf node (hc ▸ hnode)⟩
    · exact ⟨node', hnode', rfl, rfl, rfl⟩
  have hplace := place?_update fun node hnode => (hf node hnode).1
  have heffective : ∀ c, (t.update n f).effective c = t.effective c := by
    intro c
    simp only [effective, node?_update]
    split
    · rename_i hc
      cases hnode : t.node? c with
      | none => rfl
      | some node => simp [(hf node (hc ▸ hnode)).2.2]
    · rfl
  refine h.later_of_place? hplace (fun c hc => h.shaped.referenced hc) ?_
  intro c node' hnode' hattached
  obtain ⟨node, hnode, hsame, hlevel, heff⟩ := hnode c node' hnode'
  have hwas : node.attached = true := (congrArg Place.attached hsame).symm.trans hattached
  refine (h.leveled hnode hwas).congr ?_ hlevel heff fun m _ => heffective m
  rw [hsame, hattached, ← hwas]
  rfl

end LoggerHierarchy.Tree
