import LoggerHierarchy.Proofs.Tree.Shape
import Mathlib.Logic.Relation
import Mathlib.Tactic.Choose

namespace LoggerHierarchy.Tree

/-!
# Subtrees and orders to visit them

* `InSubtree` — the nodes of a subtree; `Shaped.eq_of_inSubtree` — those of siblings are apart;
* `ChildrenFirst` — a list of all nodes below the root, children before their parents;
* `Visits` — the lists in which a walk meets the nodes below a node, each after those below it, the
  children of every node in any order; `Visits.childrenFirst` — each of them is one of the former.
-/

variable {t : Tree} {n m c d x y : NodeId} {order : List NodeId}

/-! ### Subtrees -/

/-- Whether `d` is in the subtree of `n`, which `n` is part of. -/
def InSubtree (t : Tree) : NodeId → NodeId → Prop :=
  Relation.ReflTransGen fun n c => t.isChild n c = true

/-- A node of a subtree is its top, or in the subtree of one of its children. -/
theorem inSubtree_iff :
    t.InSubtree n d ↔ d = n ∨ ∃ c, t.isChild n c = true ∧ t.InSubtree c d := by
  unfold InSubtree
  rw [Relation.ReflTransGen.cases_head_iff, eq_comm]

/-- A path of children leads into the subtree. -/
theorem inSubtree_of_find? {path : List String} (h : t.find? n path = some d) :
    t.InSubtree n d := by
  induction path generalizing n with
  | nil =>
    obtain rfl : n = d := by simpa using h
    exact .refl
  | cons segment rest ih =>
    rw [find?_cons, Option.bind_eq_some_iff] at h
    obtain ⟨c, hc, h⟩ := h
    exact inSubtree_iff.2 (.inr ⟨c, (link_of_child? hc).isChild, ih h⟩)

namespace Shaped

variable (h : t.Shaped)

include h

/-- Children are younger than their parents. -/
theorem lt_of_isChild (hc : t.isChild n c = true) : n < c := by
  obtain ⟨p, hp, -, hparent⟩ := isChild_iff.1 hc
  exact h.parent_lt hp hparent

omit h in
/-- A child has one parent. -/
theorem eq_of_isChild (hn : t.isChild n c = true) (hm : t.isChild m c = true) : n = m := by
  obtain ⟨p, hp, -, hparent⟩ := isChild_iff.1 hn
  obtain ⟨q, hq, -, hparent'⟩ := isChild_iff.1 hm
  rw [hp, Option.some.injEq] at hq
  rw [← hq, hparent, Option.some.injEq] at hparent'
  exact hparent'

omit h in
/-- Above a child, itself included, are the child and what is above its parent. -/
theorem inSubtree_child_iff (hc : t.isChild n c = true) :
    t.InSubtree m c ↔ m = c ∨ t.InSubtree m n := by
  unfold InSubtree
  rw [Relation.ReflTransGen.cases_tail_iff, eq_comm]
  refine or_congr_right ⟨?_, fun hmn => ⟨n, hmn, hc⟩⟩
  rintro ⟨k, hmk, hkc⟩
  rwa [← eq_of_isChild hkc hc]

/-- The root is nobody's child. -/
theorem ne_root_of_isChild (hc : t.isChild n c = true) : c ≠ root := by
  have hlt := h.lt_of_isChild hc
  rintro rfl
  exact absurd hlt (Nat.not_lt_zero n)

/-- The top of a subtree is its oldest node. -/
theorem le_of_inSubtree (hd : t.InSubtree n d) : n ≤ d := by
  induction hd with
  | refl => exact Nat.le_refl n
  | tail _ hstep ih =>
    have hlt := h.lt_of_isChild hstep
    exact Nat.le_trans ih (Nat.le_of_lt hlt)

/-- The subtrees of siblings have no node in common. -/
theorem eq_of_inSubtree (hc : t.isChild n c = true) (hd : t.isChild n d = true)
    (hcx : t.InSubtree c x) (hdx : t.InSubtree d x) : c = d := by
  -- a sibling in the subtree of the other would be in the subtree of their parent's child
  have hbelow : ∀ {c d}, t.isChild n c = true → t.isChild n d = true → t.InSubtree c d →
      c = d := by
    intro c d hc hd hcd
    obtain rfl | hcn := (inSubtree_child_iff hd).1 hcd
    · rfl
    · -- `c` is below its parent and not above it
      have hle := h.le_of_inSubtree hcn
      have hlt := h.lt_of_isChild hc
      exact absurd hlt (Nat.not_lt_of_le hle)
  have hunique : Relator.RightUnique (Function.swap fun n c => t.isChild n c = true) :=
    fun _ _ _ hn hm => eq_of_isChild hn hm
  obtain hdc | hcd := Relation.ReflTransGen.total_of_right_unique hunique
    (Relation.reflTransGen_swap.2 hcx) (Relation.reflTransGen_swap.2 hdx)
  · exact (hbelow hd hc (Relation.reflTransGen_swap.1 hdc)).symm
  · exact hbelow hc hd (Relation.reflTransGen_swap.1 hcd)

omit h in
/-- What holds of a node if it holds of its children holds of all nodes: there are none below the
    last ones that were made. -/
theorem induction_below {motive : NodeId → Prop} (h : t.Shaped) (n : NodeId)
    (step : ∀ n, (∀ c, t.isChild n c = true → motive c) → motive n) : motive n := by
  induction hk : t.nodes.size - n using Nat.strongRecOn generalizing n with
  | ind k ih =>
    refine step n fun c hc => ?_
    obtain ⟨p, hp, -⟩ := isChild_iff.1 hc
    have hlt := h.lt_of_isChild hc
    have hsize := lt_size_of_place? hp
    have hless : t.nodes.size - c < k := by
      rw [← hk]
      exact Nat.sub_lt_sub_left (Nat.lt_trans hlt hsize) hlt
    exact ih _ hless c rfl

/-- All attached nodes are in the subtree of the root. -/
theorem inSubtree_root (hn : t.IsAttached n) : t.InSubtree root n := by
  induction n using Nat.strongRecOn with
  | ind n ih =>
    by_cases hroot : n = root
    · rw [hroot]
      exact Relation.ReflTransGen.refl
    · obtain ⟨p, hp, hattached⟩ := hn
      obtain ⟨m, -, hlink⟩ := h.exists_link hp hattached hroot
      obtain ⟨hlt, hm⟩ := h.link_parent hlink
      exact (ih m hlt hm).tail hlink.isChild

end Shaped

/-! ### Orders -/

/-- A list of all nodes below the root, children before their parents. -/
structure ChildrenFirst (t : Tree) (order : List NodeId) : Prop where
  covers {n : NodeId} : t.IsAttached n → n ≠ root → n ∈ order
  pairwise : order.Pairwise fun a b => a ≠ b ∧ t.isChild a b = false

namespace ChildrenFirst

variable {past rest : List NodeId} (horder : t.ChildrenFirst (past ++ n :: rest))

include horder

/-- A node comes only once. -/
theorem notMem : n ∉ past := by
  obtain ⟨-, -, hapart⟩ := List.pairwise_append.1 horder.pairwise
  intro hmem
  exact (hapart n hmem n List.mem_cons_self).1 rfl

/-- When its turn comes, the children of a node have had theirs. -/
theorem mem_of_isChild (h : t.Shaped) (hc : t.isChild n c = true) : c ∈ past := by
  obtain ⟨-, hrest, -⟩ := List.pairwise_append.1 horder.pairwise
  obtain ⟨hafter, -⟩ := List.pairwise_cons.1 hrest
  obtain ⟨p, hp, hattached, -⟩ := isChild_iff.1 hc
  have hmem := horder.covers ⟨p, hp, hattached⟩ (h.ne_root_of_isChild hc)
  rw [List.mem_append, List.mem_cons] at hmem
  obtain hmem | rfl | hmem := hmem
  · exact hmem
  · exact absurd (h.lt_of_isChild hc) (Nat.lt_irrefl c)
  · have hnone := (hafter c hmem).2
    rw [hc] at hnone
    exact absurd hnone (by simp)

end ChildrenFirst

/-- Nodes are made after their parents. -/
theorem Shaped.childrenFirst_reverse (h : t.Shaped) :
    t.ChildrenFirst (List.range t.nodes.size).reverse where
  covers := by
    rintro n ⟨p, hp, -⟩ _
    exact List.mem_reverse.2 (List.mem_range.2 (lt_size_of_place? hp))
  pairwise := by
    rw [List.pairwise_reverse]
    refine List.pairwise_lt_range.imp ?_
    intro a b hlt
    refine ⟨Nat.ne_of_gt hlt, ?_⟩
    rw [Bool.eq_false_iff]
    intro hchild
    have hgt := h.lt_of_isChild hchild
    exact Nat.lt_asymm hlt hgt

/-- The lists in which a walk may meet the nodes below `n`: for each child, in any order, first
    those below it and then the child. -/
inductive Visits (t : Tree) : NodeId → List NodeId → Prop where
  | children (n : NodeId) (order : List NodeId) (below : NodeId → List NodeId)
      (hperm : order.Perm (t.children n)) (hbelow : ∀ c ∈ order, Visits t c (below c)) :
      Visits t n (order.flatMap fun c => below c ++ [c])

namespace Visits

/-- A walk from a node meets the nodes of the subtrees of its children, and no others. -/
theorem mem_iff (h : t.Visits n order) :
    m ∈ order ↔ ∃ c, t.isChild n c = true ∧ t.InSubtree c m := by
  induction h generalizing m with
  | children n order below hperm _ ih =>
    simp only [List.mem_flatMap, List.mem_append, List.mem_singleton]
    constructor
    · rintro ⟨c, hc, hm⟩
      have hchild : t.isChild n c = true := mem_children.1 (hperm.subset hc)
      refine ⟨c, hchild, ?_⟩
      rw [inSubtree_iff]
      obtain hbelow | rfl := hm
      · exact .inr ((ih c hc).1 hbelow)
      · exact .inl rfl
    · rintro ⟨c, hc, hm⟩
      have hmem : c ∈ order := hperm.symm.subset (mem_children.2 hc)
      refine ⟨c, hmem, ?_⟩
      obtain rfl | hbelow := inSubtree_iff.1 hm
      · exact .inr rfl
      · exact .inl ((ih c hmem).2 hbelow)

/-- No node is met twice, and none before a node below it. -/
theorem pairwise (h : t.Shaped) (hvisits : t.Visits n order) :
    order.Pairwise fun a b => a ≠ b ∧ t.isChild a b = false := by
  induction hvisits with
  | children n order below hperm hbelow ih =>
    have hchild : ∀ c ∈ order, t.isChild n c = true :=
      fun c hc => mem_children.1 (hperm.subset hc)
    have hblock : ∀ c ∈ order, ∀ x ∈ below c ++ [c], t.InSubtree c x := by
      intro c hc x hx
      rw [List.mem_append, List.mem_singleton] at hx
      rw [inSubtree_iff]
      obtain hx | rfl := hx
      · exact .inr ((hbelow c hc).mem_iff.1 hx)
      · exact .inl rfl
    have hnodup : order.Nodup := hperm.nodup_iff.2 (List.nodup_range.filter _)
    rw [List.pairwise_flatMap]
    refine ⟨?_, ?_⟩
    · intro c hc
      refine List.pairwise_append.2 ⟨ih c hc, List.pairwise_singleton _ c, ?_⟩
      intro x hx y hy
      -- all nodes below `c` were made after it
      obtain rfl := List.mem_singleton.1 hy
      obtain ⟨k, hk, hkx⟩ := (hbelow y hc).mem_iff.1 hx
      have hlt : y < x := Nat.lt_of_lt_of_le (h.lt_of_isChild hk) (h.le_of_inSubtree hkx)
      refine ⟨Nat.ne_of_gt hlt, ?_⟩
      rw [Bool.eq_false_iff]
      intro hxy
      exact Nat.lt_asymm hlt (h.lt_of_isChild hxy)
    · refine hnodup.imp_of_mem ?_
      intro c d hc hd hcd x hx y hy
      -- what the blocks of two children have in common would make them one
      have hcx := hblock c hc x hx
      have hdy := hblock d hd y hy
      refine ⟨?_, ?_⟩
      · rintro rfl
        exact hcd (h.eq_of_inSubtree (hchild c hc) (hchild d hd) hcx hdy)
      · rw [Bool.eq_false_iff]
        intro hxy
        have hcy : t.InSubtree c y := hcx.tail hxy
        exact hcd (h.eq_of_inSubtree (hchild c hc) (hchild d hd) hcy hdy)

/-- A walk below the root meets children before their parents. -/
theorem childrenFirst (h : t.Shaped) (hvisits : t.Visits root order) : t.ChildrenFirst order where
  covers hn hroot := by
    rw [hvisits.mem_iff]
    obtain heq | hbelow := inSubtree_iff.1 (h.inSubtree_root hn)
    · exact absurd heq hroot
    · exact hbelow
  pairwise := hvisits.pairwise h

end Visits

/-- There is such a walk below every node. -/
theorem Shaped.exists_visits (h : t.Shaped) (n : NodeId) : ∃ order, t.Visits n order := by
  induction n using h.induction_below with
  | step n ih =>
    have hbelow : ∀ c, ∃ order, t.isChild n c = true → t.Visits c order := by
      intro c
      by_cases hc : t.isChild n c = true
      · obtain ⟨order, horder⟩ := ih c hc
        exact ⟨order, fun _ => horder⟩
      · exact ⟨[], fun hchild => absurd hchild hc⟩
    choose below hbelow using hbelow
    have hvisits : ∀ c ∈ t.children n, t.Visits c (below c) :=
      fun c hc => hbelow c (mem_children.1 hc)
    exact ⟨_, .children n (t.children n) below (.refl _) hvisits⟩

end LoggerHierarchy.Tree
