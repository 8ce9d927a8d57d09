import LoggerHierarchy.Proofs.Tree.FullNames
import LoggerHierarchy.Proofs.Tree.Traversal

namespace LoggerHierarchy.Tree

/-!
# The listing of loggers

The names of the loggers are collected on a walk with a stack of nodes:

* `Walks` — the nodes that such a walk meets, the children of each in an order of their own;
  `Shaped.exists_walks` — in whatever orders they come, the walk from the root ends;
  `Shaped.perm_members` — it meets every node of the tree once;
* `loggerName?` — what is collected at a node; `Shaped.perm_loggerNames` — on all walks from the
  root the same names; `Shaped.nodup_loggerNames` — and none of them twice.
-/

variable {t : Tree} {n m c : NodeId} {pending met : List NodeId} {order : NodeId → List NodeId}
  {name : String}

/-! ### Walks with a stack -/

/-- Whether the children of every node are given, each once. -/
def OrdersChildren (t : Tree) (order : NodeId → List NodeId) : Prop :=
  ∀ n, (order n).Perm (t.children n)

/-- In every order they are the children. -/
theorem OrdersChildren.mem_iff (horder : t.OrdersChildren order) :
    c ∈ order n ↔ t.isChild n c = true := by
  rw [(horder n).mem_iff, mem_children]

/-- The nodes that a walk meets, by those on its stack: it takes the one on top, and puts the
    children of that in its place. -/
inductive Walks (order : NodeId → List NodeId) : List NodeId → List NodeId → Prop where
  | done : Walks order [] []
  | visit {n : NodeId} {rest met : List NodeId} (hwalk : Walks order (order n ++ rest) met) :
      Walks order (n :: rest) (n :: met)

/-- Whether no two of some nodes have a node of their subtrees in common. -/
def Apart (t : Tree) (pending : List NodeId) : Prop :=
  pending.Pairwise fun a b => ∀ m, t.InSubtree a m → ¬ t.InSubtree b m

/-- The subtrees of siblings have no node in common. -/
theorem Shaped.apart_children (h : t.Shaped) (horder : t.OrdersChildren order) (n : NodeId) :
    t.Apart (order n) := by
  have hnodup : (order n).Nodup := (horder n).nodup_iff.2 (List.nodup_range.filter _)
  refine hnodup.imp_of_mem ?_
  intro c d hc hd hne m hcm hdm
  exact hne (h.eq_of_inSubtree (horder.mem_iff.1 hc) (horder.mem_iff.1 hd) hcm hdm)

/-- The children of a node are apart from what its subtree is apart from. -/
theorem Shaped.apart_append (h : t.Shaped) (horder : t.OrdersChildren order)
    (hapart : t.Apart (n :: pending)) : t.Apart (order n ++ pending) := by
  obtain ⟨hn, hpending⟩ := List.pairwise_cons.1 hapart
  refine List.pairwise_append.2 ⟨h.apart_children horder n, hpending, ?_⟩
  intro c hc d hd m hcm
  exact hn d hd m (inSubtree_iff.2 (.inr ⟨c, horder.mem_iff.1 hc, hcm⟩))

namespace Walks

/-- A walk meets the subtrees of the nodes on its stack. -/
theorem mem_iff (horder : t.OrdersChildren order) (hwalk : Walks order pending met) :
    m ∈ met ↔ ∃ n ∈ pending, t.InSubtree n m := by
  induction hwalk with
  | done => simp
  | @visit n rest met _ ih =>
    -- a subtree is its top and the subtrees of the children, which take its place
    simp only [List.mem_cons, ih, List.mem_append, horder.mem_iff]
    constructor
    · rintro (rfl | ⟨c, hc | hc, hcm⟩)
      · exact ⟨m, .inl rfl, .refl⟩
      · exact ⟨n, .inl rfl, inSubtree_iff.2 (.inr ⟨c, hc, hcm⟩)⟩
      · exact ⟨c, .inr hc, hcm⟩
    · rintro ⟨c, rfl | hc, hcm⟩
      · obtain rfl | ⟨d, hd, hdm⟩ := inSubtree_iff.1 hcm
        · exact .inl rfl
        · exact .inr ⟨d, .inl hd, hdm⟩
      · exact .inr ⟨c, .inr hc, hcm⟩

/-- No node is met twice. -/
theorem nodup (h : t.Shaped) (horder : t.OrdersChildren order) (hwalk : Walks order pending met)
    (hapart : t.Apart pending) : met.Nodup := by
  induction hwalk with
  | done => exact List.nodup_nil
  | @visit n rest met hwalk ih =>
    refine List.nodup_cons.2 ⟨?_, ih (h.apart_append horder hapart)⟩
    intro hmem
    obtain ⟨c, hc, hcn⟩ := (hwalk.mem_iff horder).1 hmem
    obtain hc | hc := List.mem_append.1 hc
    · -- all that is met below `n` was made after it
      have hlt := h.lt_of_isChild (horder.mem_iff.1 hc)
      exact absurd hlt (Nat.not_lt_of_le (h.le_of_inSubtree hcn))
    · exact (List.pairwise_cons.1 hapart).1 c hc n .refl hcn

end Walks

/-- No node is a member twice. -/
theorem nodup_members (t : Tree) : t.members.Nodup :=
  List.nodup_range.filter _

namespace Shaped

variable (h : t.Shaped)

include h

/-- The members are the attached nodes. -/
theorem mem_members : n ∈ t.members ↔ t.IsAttached n := by
  rw [members, List.mem_filter, h.contains_iff, and_iff_right_iff_imp]
  rintro ⟨p, hp, -⟩
  exact List.mem_range.2 (lt_size_of_place? hp)

/-- The whole tree is the subtree of the root. -/
theorem inSubtree_root_iff : t.InSubtree root n ↔ t.IsAttached n := by
  refine ⟨fun hn => ?_, h.inSubtree_root⟩
  obtain rfl | ⟨m, -, hchild⟩ := Relation.ReflTransGen.cases_tail_iff _ _ _ |>.1 hn
  · exact h.root_isAttached
  · obtain ⟨p, hp, hattached, -⟩ := isChild_iff.1 hchild
    exact ⟨p, hp, hattached⟩

/-- A walk from the root meets the nodes of the tree, in some order. -/
theorem perm_members (horder : t.OrdersChildren order) (hwalk : Walks order [root] met) :
    met.Perm t.members := by
  have hnodup := hwalk.nodup h horder (List.pairwise_singleton _ root)
  refine (List.perm_ext_iff_of_nodup hnodup t.nodup_members).2 fun n => ?_
  simp [hwalk.mem_iff horder, h.mem_members, h.inSubtree_root_iff]

/-- A walk comes to an end, if it does so once a node is taken from its stack. -/
theorem exists_walks_cons (horder : t.OrdersChildren order) (n : NodeId)
    (hrest : ∃ met, Walks order pending met) : ∃ met, Walks order (n :: pending) met := by
  induction n using h.induction_below generalizing pending with
  | step n ih =>
    -- from the last child up, each is put on what lies below it
    have hall : ∀ children : List NodeId, (∀ c ∈ children, t.isChild n c = true) →
        ∃ met, Walks order (children ++ pending) met := by
      intro children
      induction children with
      | nil => exact fun _ => hrest
      | cons c children ihchildren =>
        intro hchildren
        obtain ⟨hc, hchildren⟩ := List.forall_mem_cons.1 hchildren
        exact ih c hc (ihchildren hchildren)
    obtain ⟨met, hwalk⟩ := hall (order n) fun c => horder.mem_iff.1
    exact ⟨n :: met, .visit hwalk⟩

/-- The walk from the root ends. -/
theorem exists_walks (horder : t.OrdersChildren order) : ∃ met, Walks order [root] met :=
  h.exists_walks_cons horder root ⟨[], .done⟩

end Shaped

/-! ### Names -/

/-- Whether a logger was handed out for a node. -/
def hasLogger (t : Tree) (n : NodeId) : Bool :=
  (t.node? n).any (·.hasLogger)

/-- What is collected at a node: its name, if a logger was handed out for it. -/
def loggerName? (t : Tree) (n : NodeId) : Option String :=
  (t.node? n).bind fun node => if node.hasLogger then some node.name else none

/-- What is collected at a node is its name, if it has a logger. -/
theorem loggerName?_eq_some :
    t.loggerName? n = some name ↔ t.hasLogger n = true ∧ t.name n = name := by
  unfold loggerName? hasLogger Tree.name
  cases t.node? n with
  | none => simp
  | some node => cases hlogger : node.hasLogger <;> simp [hlogger]

/-- The listing collects the names of all members with a logger. -/
theorem loggerNames_eq (t : Tree) : t.loggerNames = t.members.filterMap t.loggerName? :=
  List.filterMap_filterMap

namespace Shaped

variable (h : t.Shaped)

include h

/-- The names of the nodes of the tree for which a logger was handed out. -/
theorem mem_loggerNames : name ∈ t.loggerNames ↔
    ∃ n, t.IsAttached n ∧ t.hasLogger n = true ∧ t.name n = name := by
  simp only [loggerNames_eq, List.mem_filterMap, h.mem_members, loggerName?_eq_some]

/-- No name is listed twice. -/
theorem nodup_loggerNames : t.loggerNames.Nodup := by
  rw [loggerNames_eq]
  refine List.pairwise_filterMap.2 (t.nodup_members.imp_of_mem ?_)
  rintro n m hn hm hne _ hname _ hname' rfl
  -- nodes of the tree are told by their names
  have hn := h.mem_members.1 hn
  have hm := h.mem_members.1 hm
  have hsame := (loggerName?_eq_some.1 hname).2.trans (loggerName?_eq_some.1 hname').2.symm
  exact hne (h.eq_of_path_eq hn hm (h.path_eq_of_name_eq hn.exists hm.exists hsame))

/-- A walk from the root collects the names that are listed. -/
theorem perm_loggerNames (horder : t.OrdersChildren order) (hwalk : Walks order [root] met) :
    (met.filterMap t.loggerName?).Perm t.loggerNames := by
  rw [loggerNames_eq]
  exact (h.perm_members horder hwalk).filterMap _

end Shaped

end LoggerHierarchy.Tree
