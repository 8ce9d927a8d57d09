import LoggerHierarchy.Proofs.Tree.Soundness
import LoggerHierarchy.Proofs.Tree.Traversal

namespace LoggerHierarchy.Tree

/-!
# What pruning removes

Pruning while the configuration answers without touching the tree:

* `Dormant` — a node without state, to which nothing refers;
* `Removable` — a node below the root whose whole subtree is dormant;
* `isDroppable_without` — which node is dropped next;
* `answeredBy_pruneNodes` — pruning in any order, children first, drops the removable nodes;
* `mem_removed_iff` — these are the nodes that are there no more.

Here every question has one answer, whenever it is asked.
-/

variable {may : Answers} {t u : Tree} {n m c : NodeId} {node : Node} {p : Place}
  {gone order : List NodeId} {answer : (q : Question) → q.Answer}

/-! ### Nodes without state -/

/-- The handlers that are listed for a name. -/
def listed (answer : (q : Question) → q.Answer) (name : String) : List Handler :=
  answer (.handlersForRemoval name)

/-- Whether a node carries no state and nothing refers to it: neither a reference nor a logger. -/
def Dormant (answer : (q : Question) → q.Answer) (t : Tree) (n : NodeId) : Prop :=
  ∃ node, t.node? n = some node ∧ t.isReferenced n = false ∧ node.hasLogger = false ∧
    node.level = none ∧ node.filter = none ∧ node.useParentFilters = false ∧
    node.useParentHandlers = true ∧ node.attachments.size = 0 ∧
    (node.handlers.current = none ∨
      node.handlers.items = [] ∧ listed answer node.name = [])

/-- Whether a node hangs below the root and its whole subtree is dormant. -/
def Removable (answer : (q : Question) → q.Answer) (t : Tree) (n : NodeId) : Prop :=
  n ≠ root ∧ t.contains n = true ∧ ∀ d, t.InSubtree n d → t.Dormant answer d

/-- A node is removable iff it is dormant and its children are removable. -/
theorem Shaped.removable_iff (h : t.Shaped) : t.Removable answer n ↔
    n ≠ root ∧ t.IsAttached n ∧ t.Dormant answer n ∧
      ∀ c, t.isChild n c = true → t.Removable answer c := by
  unfold Removable
  rw [h.contains_iff]
  constructor
  · rintro ⟨hroot, hattached, hdormant⟩
    refine ⟨hroot, hattached, hdormant n .refl, ?_⟩
    intro c hc
    obtain ⟨p, hp, hpattached, -⟩ := isChild_iff.1 hc
    refine ⟨h.ne_root_of_isChild hc, h.contains_iff.2 ⟨p, hp, hpattached⟩, ?_⟩
    intro d hd
    exact hdormant d (inSubtree_iff.2 (.inr ⟨c, hc, hd⟩))
  · rintro ⟨hroot, hattached, hdormant, hchildren⟩
    refine ⟨hroot, hattached, ?_⟩
    intro d hd
    obtain rfl | ⟨c, hc, hd⟩ := inSubtree_iff.1 hd
    · exact hdormant
    · exact (hchildren c hc).2.2 d hd

/-! ### One node -/

/-- Whether the handlers of a node would come back the same. -/
def isReproducible (answer : (q : Question) → q.Answer) (t : Tree) (n : NodeId) : Bool :=
  !(t.handlerList n).isInitialized ||
    (t.handlerList n).items.isEmpty && (listed answer (t.name n)).isEmpty

/-- Whether pruning drops a node when it comes to it. -/
def isDroppable (answer : (q : Question) → q.Answer) (t : Tree) (n : NodeId) : Bool :=
  t.isIdle n && t.isReproducible answer n

/-- With one answer to each question, the list of a node would come back or not. -/
theorem answeredBy_handlersReproducible :
    (handlersReproducible n t).answeredBy answer = (t, some (t.isReproducible answer n)) := by
  unfold handlersReproducible isReproducible
  simp only [Program.bind_apply, Program.get_apply, Dialogue.bind_done]
  cases (t.handlerList n).isInitialized with
  | false => rfl
  | true =>
    cases (t.handlerList n).items.isEmpty with
    | false => rfl
    | true => rfl

/-- With one answer to each question, a node is dropped or not, and nothing else changes. -/
theorem answeredBy_pruneNode :
    (pruneNode n t).answeredBy answer =
      (if t.isDroppable answer n then t.detach n else t, some (t.isDroppable answer n)) := by
  unfold pruneNode isDroppable
  simp only [Program.bind_apply, Program.get_apply, Dialogue.bind_done]
  cases t.isIdle n with
  | false => rfl
  | true =>
    simp only [if_true, Bool.true_and, Program.bind_apply,
      Dialogue.answeredBy_bind answeredBy_handlersReproducible]
    cases t.isReproducible answer n with
    | false => rfl
    | true => rfl

/-- A list comes back if it is unset, or if it is empty and none is configured. -/
theorem isReproducible_iff (hnode : t.node? n = some node) :
    t.isReproducible answer n = true ↔
      node.handlers.current = none ∨ node.handlers.items = [] ∧ listed answer node.name = [] := by
  simp [isReproducible, handlerList, name, hnode, HandlerList.isInitialized]

/-- The tests of pruning find out whether a node is dormant. -/
theorem dormant_iff (hnode : t.node? n = some node) :
    t.Dormant answer n ↔ t.isReferenced n = false ∧ hasNoState node = true ∧
      t.isReproducible answer n = true := by
  have hstate : hasNoState node = true ↔ node.hasLogger = false ∧ node.level = none ∧
      node.filter = none ∧ node.useParentFilters = false ∧ node.useParentHandlers = true ∧
      node.attachments.size = 0 := by
    simp [hasNoState, Attachments.isEmpty, and_assoc]
  rw [isReproducible_iff hnode, hstate]
  simp [Dormant, hnode, and_assoc]

/-- What it takes for a node to be dropped from a tree that is without some nodes already. -/
theorem isDroppable_without (h : t.Shaped) (hn : n ∉ gone) :
    (t.without gone).isDroppable answer n = true ↔ n ≠ root ∧ t.IsAttached n ∧
      t.Dormant answer n ∧ ∀ c, t.isChild n c = true → c ∈ gone := by
  have hsame := node?_without_of_notMem (t := t) hn
  have hchildren : (t.without gone).children n = [] ↔ ∀ c, t.isChild n c = true → c ∈ gone := by
    rw [List.eq_nil_iff_forall_not_mem]
    simp only [mem_children, isChild_without, not_and, not_not]
  have hreproducible : (t.without gone).isReproducible answer n = t.isReproducible answer n := by
    simp only [isReproducible, handlerList, name, hsame]
  rw [isDroppable, Bool.and_eq_true, isIdle_iff, hchildren, hreproducible]
  simp only [hsame]
  constructor
  · rintro ⟨⟨node, hnode, hparent, hattached, hfree, hgone, hstate⟩, hhandlers⟩
    have hroot : n ≠ root := (h.parent?_isSome_iff hnode).1 hparent
    have hdormant : t.Dormant answer n := (dormant_iff hnode).2 ⟨hfree, hstate, hhandlers⟩
    exact ⟨hroot, ⟨_, place?_of_node? hnode, hattached⟩, hdormant, hgone⟩
  · rintro ⟨hroot, ⟨p, hp, hattached⟩, hdormant, hgone⟩
    obtain ⟨node, hnode, rfl⟩ := place?_eq_some.1 hp
    obtain ⟨hfree, hstate, hhandlers⟩ := (dormant_iff hnode).1 hdormant
    have hparent : node.parent?.isSome = true := (h.parent?_isSome_iff hnode).2 hroot
    exact ⟨⟨node, hnode, hparent, hattached, hfree, hgone, hstate⟩, hhandlers⟩

/-! ### All nodes -/

/-- The first node has its turn, and the rest have theirs in the tree that it leaves. -/
theorem answeredBy_pruneNodes_cons {k : Nat}
    (hrest : (pruneNodes order (if t.isDroppable answer n then t.detach n else t)).answeredBy
      answer = (u, some k)) :
    (pruneNodes (n :: order) t).answeredBy answer =
      (u, some ((if t.isDroppable answer n then 1 else 0) + k)) := by
  rw [pruneNodes, Program.bind_apply, Dialogue.answeredBy_bind answeredBy_pruneNode,
    Program.bind_apply, Dialogue.answeredBy_bind hrest]
  rfl

/-- A node is dropped when its turn comes iff it is removable. -/
theorem isDroppable_iff_removable (h : t.Shaped) {past rest : List NodeId}
    (horder : t.ChildrenFirst (past ++ n :: rest))
    (hgone : ∀ n, n ∈ gone ↔ n ∈ past ∧ t.Removable answer n) :
    (t.without gone).isDroppable answer n = true ↔ t.Removable answer n := by
  have hfresh : n ∉ gone := by
    intro hmem
    exact horder.notMem ((hgone n).1 hmem).1
  have hchildren : (∀ c, t.isChild n c = true → c ∈ gone) ↔
      ∀ c, t.isChild n c = true → t.Removable answer c := by
    refine forall₂_congr ?_
    intro c hc
    rw [hgone, and_iff_right (horder.mem_of_isChild h hc)]
  rw [isDroppable_without h hfresh, h.removable_iff, hchildren]

/-- Pruning goes on where some nodes were dropped: it drops the removable ones of the rest. -/
theorem answeredBy_pruneNodes_append (h : t.Shaped) {past rest : List NodeId}
    (horder : t.ChildrenFirst (past ++ rest)) (hnodup : gone.Nodup)
    (hgone : ∀ n, n ∈ gone ↔ n ∈ past ∧ t.Removable answer n) :
    ∃ more, (pruneNodes rest (t.without gone)).answeredBy answer =
        (t.without (more ++ gone), some more.length) ∧ (more ++ gone).Nodup ∧
      ∀ n, n ∈ more ++ gone ↔ n ∈ past ++ rest ∧ t.Removable answer n := by
  -- `past` have had their turns, and `gone` are those of them that were dropped
  induction rest generalizing past gone with
  | nil => exact ⟨[], rfl, hnodup, by simpa using hgone⟩
  | cons n rest ih =>
    have hdrop := isDroppable_iff_removable h horder hgone
    have horder' : t.ChildrenFirst ((past ++ [n]) ++ rest) := by simpa using horder
    by_cases hn : t.Removable answer n
    · have hdropped := hdrop.2 hn
      have hfresh : n ∉ gone := by
        intro hmem
        exact horder.notMem ((hgone n).1 hmem).1
      have hgone' : ∀ c, c ∈ n :: gone ↔ c ∈ past ++ [n] ∧ t.Removable answer c := by
        intro c
        rw [List.mem_cons, hgone, List.mem_append, List.mem_singleton]
        grind
      obtain ⟨more, hrun, hmore, hmem⟩ := ih horder' (List.nodup_cons.2 ⟨hfresh, hnodup⟩) hgone'
      have hrest : (pruneNodes rest (if (t.without gone).isDroppable answer n then
          (t.without gone).detach n else t.without gone)).answeredBy answer =
            (t.without (more ++ n :: gone), some more.length) := by
        rw [if_pos hdropped, detach_without]
        exact hrun
      refine ⟨more ++ [n], ?_, by simpa using hmore, by simpa using hmem⟩
      rw [answeredBy_pruneNodes_cons hrest, if_pos hdropped]
      simp [Nat.add_comm]
    · have hkept : ¬ (t.without gone).isDroppable answer n = true := fun h => hn (hdrop.1 h)
      have hgone' : ∀ c, c ∈ gone ↔ c ∈ past ++ [n] ∧ t.Removable answer c := by
        intro c
        rw [hgone, List.mem_append, List.mem_singleton]
        grind
      obtain ⟨more, hrun, hmore, hmem⟩ := ih horder' hnodup hgone'
      have hrest : (pruneNodes rest (if (t.without gone).isDroppable answer n then
          (t.without gone).detach n else t.without gone)).answeredBy answer =
            (t.without (more ++ gone), some more.length) := by
        rw [if_neg hkept]
        exact hrun
      refine ⟨more, ?_, hmore, by simpa using hmem⟩
      rw [answeredBy_pruneNodes_cons hrest, if_neg hkept, Nat.zero_add]

/-- Pruning in any order, children first, drops the removable nodes. -/
theorem answeredBy_pruneNodes (answer : (q : Question) → q.Answer) (h : t.Shaped)
    (horder : t.ChildrenFirst order) :
    ∃ gone, (pruneNodes order t).answeredBy answer = (t.without gone, some gone.length) ∧
      gone.Nodup ∧ ∀ n, n ∈ gone ↔ t.Removable answer n := by
  have hnone : ∀ n, n ∈ ([] : List NodeId) ↔ n ∈ ([] : List NodeId) ∧ t.Removable answer n := by
    simp
  obtain ⟨gone, hrun, hnodup, hmem⟩ :=
    answeredBy_pruneNodes_append h (List.nil_append order ▸ horder) List.nodup_nil hnone
  rw [without_nil, List.append_nil] at hrun
  simp only [List.append_nil, List.nil_append] at hnodup hmem
  refine ⟨gone, hrun, hnodup, ?_⟩
  intro n
  -- a removable node is in the order, like all attached ones below the root
  have hcovered : t.Removable answer n → n ∈ order :=
    fun hn => horder.covers (h.contains_iff.1 hn.2.1) hn.1
  rw [hmem, and_iff_right_of_imp hcovered]

/-- Where no node is dropped, pruning changes nothing. -/
theorem answeredBy_pruneNodes_of_kept (hkept : ∀ n ∈ order, t.isDroppable answer n = false) :
    (pruneNodes order t).answeredBy answer = (t, some 0) := by
  induction order with
  | nil => rfl
  | cons n rest ih =>
    have hn : ¬ t.isDroppable answer n = true := by simp [hkept n]
    have hrest : (pruneNodes rest (if t.isDroppable answer n then t.detach n else t)).answeredBy
        answer = (t, some 0) := by
      rw [if_neg hn]
      exact ih fun m hm => hkept m (List.mem_cons_of_mem _ hm)
    rw [answeredBy_pruneNodes_cons hrest, if_neg hn]

/-- Pruning is the dropping of nodes, children first. -/
theorem answeredBy_prune {k : Nat}
    (h : (pruneNodes (List.range t.nodes.size).reverse t).answeredBy answer = (u, some k)) :
    (prune t).answeredBy answer = (u, some k) := by
  rw [prune, Program.bind_apply, Program.get_apply, Dialogue.bind_done, Program.bind_apply,
    Dialogue.answeredBy_bind h]
  rfl

/-! ### What is left -/

/-- Removable nodes may be dropped together. -/
theorem Shaped.droppable (h : t.Shaped) (hgone : ∀ n, n ∈ gone ↔ t.Removable answer n) :
    t.Droppable gone := by
  intro n hn
  rw [hgone, h.removable_iff] at hn
  obtain ⟨hroot, -, ⟨node, hnode, hfree, -⟩, hchildren⟩ := hn
  refine ⟨hroot, hfree, ?_⟩
  intro c hc
  exact (hgone c).2 (hchildren c hc)

/-- Where the removable nodes are gone, no node is dropped. -/
theorem isDroppable_of_removed (h : t.Shaped) (hgone : ∀ n, n ∈ gone ↔ t.Removable answer n)
    (n : NodeId) : (t.without gone).isDroppable answer n = false := by
  rw [Bool.eq_false_iff]
  intro hdrop
  by_cases hn : n ∈ gone
  · -- a dropped node is not dropped again
    rw [isDroppable, Bool.and_eq_true, isIdle_iff] at hdrop
    obtain ⟨⟨node, hnode, -, hattached, -⟩, -⟩ := hdrop
    exact (isAttached_without.1 ⟨_, place?_of_node? hnode, hattached⟩).2 hn
  · -- a node whose children are all removable would have been removable itself
    obtain ⟨hroot, hattached, hdormant, hchildren⟩ := (isDroppable_without h hn).1 hdrop
    apply hn
    rw [hgone, h.removable_iff]
    refine ⟨hroot, hattached, hdormant, ?_⟩
    intro c hc
    exact (hgone c).1 (hchildren c hc)

/-- The nodes that hang below the root after removable ones were dropped. -/
theorem contains_without (h : t.WellFormed may) (hgone : t.Droppable gone) :
    (t.without gone).contains n = true ↔ t.contains n = true ∧ n ∉ gone := by
  rw [(h.later_without hgone).wellFormed.shaped.contains_iff, isAttached_without,
    h.shaped.contains_iff]

/-- The members are the nodes that the tree contains. -/
theorem mem_members : n ∈ t.members ↔ t.contains n = true := by
  simp only [members, List.mem_filter, List.mem_range, and_iff_right_iff_imp]
  intro hn
  cases hnode : t.node? n with
  | none =>
    rw [contains, hnode] at hn
    exact absurd hn (by simp)
  | some node => exact lt_size_of_place? (place?_of_node? hnode)

/-- Of the nodes below the root, the removable ones are those that are there no more. -/
theorem mem_removed_iff (h : t.WellFormed may) (hgone : ∀ n, n ∈ gone ↔ t.Removable answer n) :
    n ∈ gone ↔ t.contains n = true ∧ (t.without gone).contains n = false := by
  rw [Bool.eq_false_iff, Ne, contains_without h (h.shaped.droppable hgone)]
  constructor
  · intro hn
    have hremovable := (hgone n).1 hn
    exact ⟨hremovable.2.1, fun hkept => hkept.2 hn⟩
  · rintro ⟨hcontained, hnot⟩
    by_contra hkept
    exact hnot ⟨hcontained, hkept⟩

end LoggerHierarchy.Tree
