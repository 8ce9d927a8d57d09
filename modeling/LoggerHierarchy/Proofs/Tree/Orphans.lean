import LoggerHierarchy.Proofs.Tree.Reach

namespace LoggerHierarchy.Tree

/-!
# Nodes that outlive their parents

When a context is given up its nodes go, but for those below a reference:

* `Shaped.isAlive_iff` — what keeps a node of the tree: the context, or a reference to it or to a
  node above it;
* `IsOrphan` — a node whose context was given up and above which nothing is referenced;
  `Shaped.parent?_eq_none_iff_orphan` — no others but roots lack a parent;
* `Situation.Reachable.level_cleared` — where clearing a level leaves none, and where it sets one.
-/

variable {may : Answers} {t : Tree} {a n : NodeId} {node : Node}

/-- Nothing is above a node without a parent. -/
theorem inSubtree_parentless_iff (hnode : t.node? n = some node) (hnone : node.parent? = none) :
    t.InSubtree a n ↔ a = n := by
  unfold InSubtree
  rw [Relation.ReflTransGen.cases_tail_iff, eq_comm (a := n)]
  refine or_iff_left ?_
  rintro ⟨k, -, hchild⟩
  obtain ⟨place, hplace, -, hparent⟩ := isChild_iff.1 hchild
  obtain rfl := Option.some.inj ((place?_of_node? hnode).symm.trans hplace)
  exact absurd (hnone.symm.trans hparent) (by simp)

/-- What keeps a node of the tree. -/
theorem Shaped.isAlive_iff (h : t.Shaped) (hn : t.IsAttached n) : t.isAlive n = true ↔
    t.isOpen = true ∨ ∃ a, t.InSubtree a n ∧ t.isReferenced a = true := by
  -- a node is kept by a reference or by its parent, which was made before it
  induction n using Nat.strongRecOn with
  | ind n ih =>
    obtain ⟨place, hplace, hattached⟩ := id hn
    obtain ⟨node, hnode, rfl⟩ := place?_eq_some.1 hplace
    have hattached : node.attached = true := hattached
    rw [isAlive]
    simp only [hnode, Bool.or_eq_true]
    cases hparent : node.parent? with
    | none =>
      simp only [inSubtree_parentless_iff hnode hparent, exists_eq_left]
      exact or_comm
    | some p =>
      obtain ⟨hlt, -⟩ := h.parent_node? hnode hparent
      have hchild : t.isChild p n = true := isChild_iff.2 ⟨_, hplace, hattached, hparent⟩
      simp only [hlt, if_true, hattached, Bool.true_and,
        ih p hlt (h.parent_isAttached hplace hattached hparent), Shaped.inSubtree_child_iff hchild,
        or_and_right, exists_or, exists_eq_left]
      rw [or_left_comm]

/-- Whether the context of a node was given up and nothing above the node is referenced. -/
structure IsOrphan (t : Tree) (n : NodeId) : Prop where
  closed : t.isOpen = false
  above {a : NodeId} : t.InSubtree a n → a ≠ n → t.isReferenced a = false

/-- Only roots and orphans lack a parent. -/
theorem Shaped.parent?_eq_none_iff_orphan (h : t.Shaped) (hn : t.IsAttached n) :
    t.parent? n = none ↔ t.isRoot n = true ∨ t.IsOrphan n := by
  obtain ⟨place, hplace, hattached⟩ := id hn
  obtain ⟨node, hnode, rfl⟩ := place?_eq_some.1 hplace
  have hattached : node.attached = true := hattached
  -- the root was made without a parent; any other node lacks one just when that is gone
  cases hparent : node.parent? with
  | none => simp [parent?, isRoot, hnode, hparent]
  | some p =>
    obtain ⟨hlt, -⟩ := h.parent_node? hnode hparent
    have hchild : t.isChild p n = true := isChild_iff.2 ⟨_, hplace, hattached, hparent⟩
    have halive := h.isAlive_iff (h.parent_isAttached hplace hattached hparent)
    have hroot : t.isRoot n = false := by simp [isRoot, hnode, hparent]
    have hgone : t.parent? n = none ↔ ¬ t.isAlive p = true := by
      simp [parent?, hnode, hparent, hlt, Option.filter]
    rw [hgone, halive, hroot]
    constructor
    · intro hnot
      refine .inr ⟨by simpa using mt .inl hnot, fun {a} ha hne => ?_⟩
      obtain rfl | hap := (inSubtree_child_iff hchild).1 ha
      · exact absurd rfl hne
      · exact Bool.eq_false_iff.2 fun hreferenced => hnot (.inr ⟨a, hap, hreferenced⟩)
    · rintro (hfalse | ⟨hclosed, habove⟩)
      · exact absurd hfalse (by simp)
      · rintro (hopen | ⟨a, hap, hreferenced⟩)
        · exact absurd (hclosed.symm.trans hopen) (by simp)
        · have hne : a ≠ n := Nat.ne_of_lt (Nat.lt_of_le_of_lt (h.le_of_inSubtree hap) hlt)
          have hfree := habove (hap.tail hchild) hne
          exact absurd (hfree.symm.trans hreferenced) (by simp)

/-- What clearing leaves at a node: no level below a parent, and else the one of a new root. -/
theorem settled_none (t : Tree) (n : NodeId) :
    (t.settled n none).1 = if (t.parent? n).isSome then none else some .info := by
  unfold settled
  cases t.parent? n <;> rfl

/-- Whenever the outside holds a node, also of a context that was given up: clearing the level of
    the node leaves it without one, unless the node is a root or an orphan; these get the level
    `INFO`.  So a node that is no root gets a level when it is cleared iff its context was given up
    and nothing above the node is referenced. -/
theorem Situation.Reachable.level_cleared {s : Situation} (h : Reachable may s)
    (hheld : n ∈ s.tree.held) :
    ∃ node, (s.setLevel n none).tree.node? n = some node ∧
      (node.level = none ↔ s.tree.isRoot n = false ∧ ¬ s.tree.IsOrphan n) ∧
      (node.level = some .info ↔ s.tree.isRoot n = true ∨ s.tree.IsOrphan n) := by
  have hshaped := h.wellFormed.shaped
  have hn : s.tree.IsAttached n := hshaped.referenced (.inl hheld)
  obtain ⟨place, hplace, -⟩ := id hn
  obtain ⟨old, hold, -⟩ := place?_eq_some.1 hplace
  obtain ⟨effective, hnew, -, -⟩ := hshaped.node?_withLevel hold hold none
  rw [Situation.setLevel_eq]
  refine ⟨_, hnew, ?_⟩
  have hwithout := hshaped.parent?_eq_none_iff_orphan hn
  have hwith : (s.tree.isRoot n = false ∧ ¬ s.tree.IsOrphan n) ↔ s.tree.parent? n ≠ none := by
    rw [Ne, hwithout, not_or, Bool.not_eq_true]
  simp only [hwith, ← hwithout, if_true, settled_none]
  cases s.tree.parent? n <;> simp

/-- A node was made and is held, and then the context was given up. -/
def leftBehind : Situation :=
  ((Situation.initial {}).after {} (.getOrCreate root "a")).after {} .close

/-- The node is no root and never had a level, and clearing its level sets one. -/
theorem level_cleared_leftBehind :
    leftBehind.tree.isRoot 1 = false ∧
      (leftBehind.tree.node? 1).map (·.level) = some none ∧
      ((leftBehind.setLevel 1 none).tree.node? 1).map (·.level) = some (some .info) := by
  have hreachable : leftBehind.Reachable (Configuration.Allows {}) :=
    ((Situation.reachable_initial {}).after (.getOrCreate root "a") (.inr ⟨rfl, rfl⟩) rfl).after
      .close (.inr (by decide +kernel)) (by decide +kernel)
  have hheld : leftBehind.tree.held = [1] := by decide +kernel
  have hpins : leftBehind.tree.pins = [] := by decide +kernel
  have horphan : leftBehind.tree.IsOrphan 1 := by
    refine ⟨by decide +kernel, fun _ hne => ?_⟩
    simp [isReferenced, hheld, hpins, hne]
  obtain ⟨node, hnode, -, hinfo⟩ :=
    Situation.Reachable.level_cleared hreachable (n := 1) (by simp [hheld])
  refine ⟨by decide +kernel, by decide +kernel, ?_⟩
  rw [hnode, Option.map_some, hinfo.2 (.inr horphan)]

end LoggerHierarchy.Tree
