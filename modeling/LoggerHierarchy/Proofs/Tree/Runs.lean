import LoggerHierarchy.Proofs.Tree.Soundness
import Mathlib.Logic.Relation

namespace LoggerHierarchy.Tree

/-!
# Levels and identities in every run

Whatever the outside does with an open context, also from within the code that operations call:

* `Situation.Reachable.effective_eq_max` — the effective level of every node is the maximum of its
  floor and of its own level or, where none is set, of its parent's effective level;
* `Situation.Reachable.referenced_resolves` — a node with a reference to it is found at the end of
  its path, below ancestors that are all there, and by the name that it was looked up by.
-/

variable {may : Answers} {t : Tree} {n m : NodeId} {node : Node}

/-! ### Levels -/

/-- The effective level that the settings of a node and its parent call for. -/
def DueEffective (t : Tree) (n : NodeId) (node : Node) (value : Int32) : Prop :=
  match node.level with
  | some level => value = max node.minimum level.value
  | none => ∃ p, t.parent? n = some p ∧ value = max node.minimum (t.effective p)

/-- In a well-formed tree the effective level of an attached node is the one that is due. -/
theorem WellFormed.dueEffective (h : t.WellFormed may) (hopen : t.isOpen = true)
    (hnode : t.node? n = some node) (hattached : node.attached = true) :
    t.DueEffective n node node.effective := by
  obtain ⟨severity, hgoverning, heq⟩ := h.leveled hnode hattached
  unfold DueEffective
  unfold governing at hgoverning
  cases hlevel : node.level with
  | some level =>
    rw [hlevel] at hgoverning
    rw [heq, ← Option.some.inj hgoverning]
  | none =>
    rw [hlevel] at hgoverning
    obtain ⟨p, hparent, rfl⟩ := Option.map_eq_some_iff.1 hgoverning
    have hup := h.shaped.parent?_eq hopen (place?_of_node? hnode) hattached
    exact ⟨p, hup.trans hparent, heq⟩

/-- The level of the root is always set. -/
theorem WellFormed.root_level (h : t.WellFormed may) :
    ∃ node, t.node? root = some node ∧ node.level.isSome = true := by
  obtain ⟨p, hp, hnone, -, hattached⟩ := h.shaped.top
  obtain ⟨node, hnode, rfl⟩ := place?_eq_some.1 hp
  obtain ⟨severity, hgoverning, -⟩ := h.leveled hnode hattached
  have hnone : node.parent? = none := hnone
  refine ⟨node, hnode, ?_⟩
  cases hlevel : node.level with
  | some level => rfl
  | none => simp [governing, hlevel, hnone] at hgoverning

/-- Whenever the outside may look at an open context, also from within the code that operations
    call, the effective level of each of its nodes is the one that its settings and its parent call
    for, and the root has a level. -/
theorem Situation.Reachable.effective_eq_max {s : Situation} (h : Reachable may s)
    (hopen : s.tree.isOpen = true) :
    (∃ node, s.tree.node? root = some node ∧ node.level.isSome = true) ∧
      ∀ n, s.tree.contains n = true → ∃ node, s.tree.node? n = some node ∧
        s.tree.DueEffective n node node.effective := by
  refine ⟨h.wellFormed.root_level, ?_⟩
  intro n hn
  obtain ⟨p, hp, hattached⟩ := h.wellFormed.shaped.contains_iff.1 hn
  obtain ⟨node, hnode, rfl⟩ := place?_eq_some.1 hp
  exact ⟨node, hnode, h.wellFormed.dueEffective hopen hnode hattached⟩

/-- A configuration with a level for a node and a floor for its child. -/
def Configuration.leveled : Configuration where
  minimum name := if name = "a.b" then some .warning else none
  level name := if name = "a" then some .debug else none

/-- While the floor of a node is asked, the node is made by the code that was called, and the level
    of its parent is raised. -/
def Situation.raised : Situation :=
  ((((initial .leveled).after .leveled (.getOrCreate root "a")).calling (.getOrCreate 1 "b")).after
    .leveled (.getOrCreate 1 "b")).after .leveled (.setLevel 1 (some .severe))

/-- Its situation is reached by a run. -/
theorem Situation.reachable_raised : Reachable Configuration.leveled.Allows raised := by
  have habove := (reachable_initial .leveled).after (.getOrCreate root "a") (.inr ⟨rfl, rfl⟩) rfl
  have hasked := habove.calling (.getOrCreate 1 "b") (.inl (by decide +kernel)) rfl
  have hmade := hasked.after (.getOrCreate 1 "b") (.inl (by decide +kernel)) (by decide +kernel)
  exact hmade.after (.setLevel 1 (some .severe)) (.inl (by decide +kernel)) (by decide +kernel)

/-- So it is while the creation still waits, and when it has ended: the new level of the parent is
    above the floor of the node, which inherits it. -/
theorem effective_eq_max_during_creation :
    let s := Situation.raised
    let s' := (s.reply .leveled).reply .leveled
    (s.waiting.length = 1 ∧ s.tree.contains 2 = true ∧ s.tree.minimum 2 = 900 ∧
      s.tree.effective 2 = 1000 ∧ ∀ n, s.tree.contains n = true →
        ∃ node, s.tree.node? n = some node ∧ s.tree.DueEffective n node node.effective) ∧
    s'.waiting.length = 0 ∧ s'.tree.effective 2 = 1000 ∧ ∀ n, s'.tree.contains n = true →
      ∃ node, s'.tree.node? n = some node ∧ s'.tree.DueEffective n node node.effective := by
  have hopen : Situation.raised.tree.isOpen = true := by decide +kernel
  have hopen' : ((Situation.raised.reply .leveled).reply .leveled).tree.isOpen = true := by
    decide +kernel
  have hdue := Situation.Reachable.effective_eq_max Situation.reachable_raised hopen
  have hdue' := Situation.Reachable.effective_eq_max Situation.reachable_raised.reply.reply hopen'
  exact ⟨⟨by decide +kernel, by decide +kernel, by decide +kernel, by decide +kernel, hdue.2⟩,
    by decide +kernel, by decide +kernel, hdue'.2⟩

/-! ### Identities -/

/-- Whether `a` stands somewhere above `n`. -/
def IsAncestor (t : Tree) : NodeId → NodeId → Prop :=
  Relation.TransGen fun a n => ∃ node, t.node? n = some node ∧ node.parent? = some a

/-- All that stands above an attached node is attached. -/
theorem Shaped.ancestor_isAttached {a : NodeId} (h : t.Shaped) (hn : t.IsAttached n)
    (ha : t.IsAncestor a n) : t.IsAttached a := by
  have hup : ∀ {a n}, t.IsAttached n → (∃ node, t.node? n = some node ∧ node.parent? = some a) →
      t.IsAttached a := by
    rintro a n ⟨p, hp, hattached⟩ ⟨node, hnode, hparent⟩
    obtain rfl := Option.some.inj ((place?_of_node? hnode).symm.trans hp)
    exact h.parent_isAttached hp hattached hparent
  induction ha using Relation.TransGen.head_induction_on with
  | single hlink => exact hup hn hlink
  | head hlink _ ih => exact hup ih hlink

/-- Whenever the outside may look at an open context: a node that something refers to is found at
    the end of its path from the root, all its ancestors are in the tree, and its parent is there;
    no two nodes of the tree have the same path; and a node that was looked up by a name is, while a
    reference to it is held, what every look-up by that name finds, at once. -/
theorem Situation.Reachable.referenced_resolves {s : Situation} (h : Reachable may s)
    (hopen : s.tree.isOpen = true) :
    (∀ n, s.tree.isReferenced n = true →
      s.tree.find? root (s.tree.path n) = some n ∧
        (∀ a, s.tree.IsAncestor a n → s.tree.contains a = true) ∧
        (n ≠ root → (s.tree.parent? n).isSome = true)) ∧
    (∀ n m, s.tree.contains n = true → s.tree.contains m = true →
      s.tree.path n = s.tree.path m → n = m) ∧
    ∀ start name nodes,
      (Operation.getOrCreate start name, nodes) ∈ s.ended ∨
        (Operation.getIfExists start name, nodes) ∈ s.ended →
      ∀ m ∈ nodes, m ∈ s.tree.held →
        s.tree.getIfExists start name = some m ∧
          getOrCreate start name s.tree = .done s.tree m := by
  have hshaped := h.wellFormed.shaped
  refine ⟨?_, ?_, ?_⟩
  · intro n hn
    have hattached : s.tree.IsAttached n := hshaped.referenced (isReferenced_iff.1 hn)
    refine ⟨hshaped.find?_path hattached, ?_, ?_⟩
    · intro a ha
      rw [hshaped.contains_iff]
      exact hshaped.ancestor_isAttached hattached ha
    · intro hroot
      obtain ⟨p, hp, hpattached⟩ := hattached
      obtain ⟨m, hparent, -⟩ := hshaped.exists_link hp hpattached hroot
      rw [hshaped.parent?_eq hopen hp hpattached, hparent, Option.isSome_some]
  · intro n m hn hm hpath
    -- both are found at the end of the one path
    have hfind := hshaped.find?_path (hshaped.contains_iff.1 hn)
    rw [hpath, hshaped.find?_path (hshaped.contains_iff.1 hm)] at hfind
    exact (Option.some.inj hfind).symm
  · intro start name nodes hended m hm hheld
    have hattached : s.tree.IsAttached m := hshaped.referenced (.inl hheld)
    have hfind : s.tree.getIfExists start name = some m := by
      obtain hended | hended := hended
      · exact (h.sound.resolves _ hended m hm).2 (start, name) rfl hattached
      · exact (h.sound.resolves _ hended m hm).2 (start, name) rfl hattached
    exact ⟨hfind, followOrCreate_eq_done hfind⟩

/-- While a first node on the way is made, the code that was called makes it itself, and prunes; so
    it does while the next one is made, and once more when all is over. -/
def Situation.overtaken : Situation :=
  let made := ((initial {}).calling (.getOrCreate root "a.b")).after {} (.getOrCreate root "a")
  let below := (((made.after {} .prune).reply {}).reply {}).after {} .prune
  ((below.reply {}).reply {}).after {} .prune

/-- The situation with the overtaken creation is reached by a run. -/
theorem Situation.reachable_overtaken : Reachable (Configuration.Allows {}) overtaken := by
  have hasked := (reachable_initial {}).calling (.getOrCreate root "a.b") (.inr ⟨rfl, rfl⟩) rfl
  have hmade := hasked.after (.getOrCreate root "a") (.inr ⟨rfl, by decide +kernel⟩)
    (by decide +kernel)
  have hpruned := hmade.after .prune (.inr ⟨rfl, by decide +kernel⟩) (by decide +kernel)
  have hbelow := hpruned.reply.reply.after .prune (.inr ⟨rfl, by decide +kernel⟩)
    (by decide +kernel)
  exact hbelow.reply.reply.after .prune (.inr ⟨rfl, by decide +kernel⟩) (by decide +kernel)

/-- So it is for both nodes, to which there is a reference each: the one that was made twice over,
    and the one below it. -/
theorem created_resolves :
    let t := Situation.overtaken.tree
    t.held = [2, 1] ∧ t.nodes.size = 3 ∧
      (∀ n ∈ [1, 2], t.find? root (t.path n) = some n ∧ (t.parent? n).isSome = true) ∧
      getOrCreate root "a" t = .done t 1 ∧ getOrCreate root "a.b" t = .done t 2 := by
  -- what the run has looked up and still holds is computed
  have hopen : Situation.overtaken.tree.isOpen = true := by decide +kernel
  have hheld : Situation.overtaken.tree.held = [2, 1] := by decide +kernel
  have hended : Situation.overtaken.ended = [(.prune, []), (.getOrCreate root "a.b", [2]),
      (.prune, []), (.prune, []), (.getOrCreate root "a", [1])] := by
    with_unfolding_all rfl
  obtain ⟨hpath, -, hlookup⟩ :=
    Situation.Reachable.referenced_resolves Situation.reachable_overtaken hopen
  refine ⟨hheld, by decide +kernel, ?_, ?_, ?_⟩
  · intro n hn
    have hreferenced : Situation.overtaken.tree.isReferenced n = true := by
      rw [isReferenced_iff, hheld]
      exact .inl (by simpa [or_comm] using hn)
    obtain ⟨hfound, -, hparent⟩ := hpath n hreferenced
    refine ⟨hfound, hparent ?_⟩
    rintro rfl
    simp [root] at hn
  · exact (hlookup root "a" [1] (.inl (by simp [hended])) 1 (by simp) (by simp [hheld])).2
  · exact (hlookup root "a.b" [2] (.inl (by simp [hended])) 2 (by simp) (by simp [hheld])).2

end LoggerHierarchy.Tree
