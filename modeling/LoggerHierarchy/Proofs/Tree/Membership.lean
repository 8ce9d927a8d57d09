import LoggerHierarchy.Proofs.Tree.WellFormed

namespace LoggerHierarchy.Tree

/-!
# Nodes that come and go

* `wellFormed_planted` — a tree of nothing but the root is well-formed;
* `WellFormed.later_insert` — a new child under a free segment, made from allowed answers, keeps a
  tree well-formed;
* `WellFormed.later_without`, `WellFormed.later_detach` — so does dropping nodes with all that is
  below them, and an idle one in particular.
-/

variable {may : Answers} {t u : Tree} {n m c : NodeId} {node : Node} {p : Place}
  {segment : String} {gone : List NodeId}

/-! ### The root -/

/-- A new context has nothing but the root. -/
theorem eq_of_node?_planted {minimum level : Option Level}
    (h : node? { nodes := #[rootNode minimum level] } n = some node) :
    n = root ∧ node = rootNode minimum level := by
  cases n with
  | zero => exact ⟨rfl, (Option.some.inj h).symm⟩
  | succ n => exact absurd h (by simp [node?])

/-- A tree of nothing but the root is well-formed. -/
theorem wellFormed_planted {minimum level : Option Level} (h : may (.minimum "") minimum) :
    WellFormed may { nodes := #[rootNode minimum level] } := by
  -- the root is the only node
  have hplace : ∀ n p, place? { nodes := #[rootNode minimum level] } n = some p →
      n = root ∧ p = (rootNode minimum level).place := by
    intro n p hp
    obtain ⟨node, hn, rfl⟩ := place?_eq_some.1 hp
    obtain ⟨rfl, rfl⟩ := eq_of_node?_planted hn
    exact ⟨rfl, rfl⟩
  have hshaped : Shaped { nodes := #[rootNode minimum level] } := by
    constructor
    case top => exact ⟨_, rfl, rfl, rfl, rfl⟩
    case parent =>
      intro n p hp hn
      exact absurd (hplace n p hp).1 hn
    case unique =>
      intro n m p q hp hq _ _ _ _
      rw [(hplace n p hp).1, (hplace m q hq).1]
    case undotted =>
      intro n p hp
      rw [(hplace n p hp).2]
      simp [Node.place, rootNode]
    case capacity =>
      intro n p hp
      rw [(hplace n p hp).2]
      simp [Node.place, rootNode]
    case referenced =>
      intro n hn
      exact absurd hn (by simp)
  refine ⟨hshaped, ?_, ?_⟩
  · intro n node hn _
    obtain ⟨rfl, rfl⟩ := eq_of_node?_planted hn
    exact ⟨_, rfl, rfl⟩
  · -- the root's floor was answered for the empty name
    intro n p hp
    obtain ⟨rfl, rfl⟩ := hplace n p hp
    refine ⟨minimum, h, ?_⟩
    cases minimum <;> rfl

/-! ### A new child -/

/-- The new node is found under the next free id, and all others as before. -/
theorem node?_insert (t : Tree) (node : Node) (c : NodeId) :
    (t.insert node).node? c = if c = t.nodes.size then some node else t.node? c := by
  simp [node?, insert, Array.getElem?_push]

/-- The place of the new node is found under the next free id, and all others as before. -/
theorem place?_insert (t : Tree) (node : Node) (c : NodeId) :
    (t.insert node).place? c = if c = t.nodes.size then some node.place else t.place? c := by
  simp only [place?, node?_insert]
  split <;> rfl

/-- A node that was made before keeps its place. -/
theorem place?_insert_of_some (node : Node) (hp : t.place? c = some p) :
    (t.insert node).place? c = some p := by
  rw [place?_insert, if_neg (Nat.ne_of_lt (lt_size_of_place? hp)), hp]

/-- A node that was attached stays so. -/
theorem IsAttached.insert (h : t.IsAttached c) (node : Node) : (t.insert node).IsAttached c := by
  obtain ⟨p, hp, hattached⟩ := h
  exact ⟨p, place?_insert_of_some node hp, hattached⟩

/-- A node that is there is not affected by a new one. -/
theorem effective_insert (node : Node) (hp : t.place? c = some p) :
    (t.insert node).effective c = t.effective c := by
  simp only [effective, node?_insert, if_neg (Nat.ne_of_lt (lt_size_of_place? hp))]

/-- A node that was made before keeps its floor. -/
theorem minimum_insert (node : Node) (hp : t.place? c = some p) :
    (t.insert node).minimum c = t.minimum c := by
  rw [minimum_eq, minimum_eq, place?_insert_of_some node hp, hp]

/-- The place of a new child: below its parent, with a name and a floor that come from there. -/
theorem place_childNode (t : Tree) (n : NodeId) (segment : String)
    (minimum level : Option Level) :
    (t.childNode n segment minimum level).place =
      ⟨some n, segment, t.childName n segment, (minimum.map (·.value)).getD (t.minimum n),
        Node.attachmentCapacity, true⟩ := by
  simp [Node.place, childNode]

/-- The name of a child, by the place of its parent. -/
theorem Shaped.childName_eq (h : t.Shaped) (hp : t.place? n = some p) :
    t.childName n segment = Name.child (decide (n = root)) p.name segment := by
  obtain ⟨node, hnode, rfl⟩ := place?_eq_some.1 hp
  rw [childName, h.isRoot_iff hp]
  simp [name, hnode, Node.place]

/-- A new child under a free segment keeps the tree in shape. -/
theorem Shaped.insert_childNode (h : t.Shaped) (hn : t.IsAttached n)
    (hfree : t.child? n segment = none) (hdots : '.' ∉ segment.toList)
    (minimum level : Option Level) :
    (t.insert (t.childNode n segment minimum level)).Shaped := by
  obtain ⟨above, habove, habove'⟩ := hn
  have hnew : (t.insert (t.childNode n segment minimum level)).place? t.nodes.size = _ :=
    (place?_insert _ _ _).trans (if_pos rfl)
  rw [place_childNode] at hnew
  have hkeep := fun c q => @place?_insert_of_some t c q (t.childNode n segment minimum level)
  -- a place in the larger tree is an old one or that of the new node
  have hcases : ∀ c q, (t.insert (t.childNode n segment minimum level)).place? c = some q →
      t.place? c = some q ∨ c = t.nodes.size ∧ q = ⟨some n, segment, t.childName n segment,
        (minimum.map (·.value)).getD (t.minimum n), Node.attachmentCapacity, true⟩ := by
    intro c q hq
    by_cases hc : c = t.nodes.size
    · subst hc
      rw [hnew, Option.some.injEq] at hq
      exact .inr ⟨rfl, hq.symm⟩
    · rw [place?_insert, if_neg hc] at hq
      exact .inl hq
  -- no attached node has the segment of the new one
  have hother : ∀ c q, t.place? c = some q → q.attached = true → q.parent? = some n →
      q.segment ≠ segment := by
    intro c q hq hattached hparent hsegment
    rw [child?_eq_none_iff] at hfree
    exact hfree c ⟨q, hq, hattached, hparent, hsegment⟩
  constructor
  case top =>
    obtain ⟨q, hq, hrest⟩ := h.top
    exact ⟨q, hkeep _ _ hq, hrest⟩
  case parent =>
    intro c q hq hc
    obtain hold | ⟨rfl, rfl⟩ := hcases c q hq
    · obtain ⟨m, r, hparent, hlt, hr, hrest⟩ := h.parent hold hc
      exact ⟨m, r, hparent, hlt, hkeep _ _ hr, hrest⟩
    · exact ⟨n, above, rfl, lt_size_of_place? habove, hkeep _ _ habove, h.childName_eq habove,
        fun _ => habove'⟩
  case unique =>
    intro c d q r hq hr hqa hra hparent hsegment
    obtain hq | ⟨rfl, rfl⟩ := hcases c q hq <;> obtain hr | ⟨rfl, rfl⟩ := hcases d r hr
    · exact h.unique hq hr hqa hra hparent hsegment
    · exact absurd hsegment (hother c q hq hqa hparent)
    · exact absurd hsegment.symm (hother d r hr hra hparent.symm)
    · rfl
  case undotted =>
    intro c q hq
    obtain hq | ⟨-, rfl⟩ := hcases c q hq
    · exact h.undotted hq
    · exact hdots
  case capacity =>
    intro c q hq
    obtain hq | ⟨-, rfl⟩ := hcases c q hq
    · exact h.capacity hq
    · rfl
  case referenced =>
    exact fun hc => (h.referenced hc).insert _

/-- A new child under a free segment, made from allowed answers, keeps a tree well-formed. -/
theorem WellFormed.later_insert (h : t.WellFormed may) (hn : t.IsAttached n)
    (hfree : t.child? n segment = none) (hdots : '.' ∉ segment.toList)
    {minimum : Option Level} (hminimum : may (.minimum (t.childName n segment)) minimum)
    (level : Option Level) :
    Later may t (t.insert (t.childNode n segment minimum level)) := by
  have hshaped := h.shaped.insert_childNode hn hfree hdots minimum level
  have hgrows : Grows t (t.insert (t.childNode n segment minimum level)) :=
    fun c q hq => ⟨q.attached, place?_insert_of_some _ hq, id⟩
  obtain ⟨above, habove, -⟩ := hn
  refine ⟨⟨hshaped, ?_, ?_⟩, hgrows⟩
  -- levels: the new node inherits unless it was given one, and the others see no change
  · intro c node hnode hattached
    rw [node?_insert] at hnode
    split at hnode
    · -- the new node
      obtain rfl := Option.some.inj hnode
      cases level with
      | some level => exact ⟨level.value, rfl, rfl⟩
      | none =>
        refine ⟨t.effective n, ?_, rfl⟩
        simp [governing, childNode, effective_insert _ habove]
    · refine (h.leveled hnode hattached).congr rfl rfl rfl ?_
      intro m hparent
      obtain ⟨q, hq, -⟩ := h.shaped.parent_isAttached (place?_of_node? hnode) hattached hparent
      exact effective_insert _ hq
  -- floors: that of the new node was answered for its name, or is its parent's
  · intro c q hq
    rw [place?_insert] at hq
    split at hq
    · rw [place_childNode] at hq
      obtain rfl := Option.some.inj hq
      exact ⟨minimum, hminimum, by simp [minimum_insert _ habove]⟩
    · obtain ⟨answer, hanswer, heq⟩ := h.floored hq
      refine ⟨answer, hanswer, ?_⟩
      cases hparent : q.parent? with
      | none => simpa [hparent] using heq
      | some m =>
        obtain ⟨-, r, hr, -⟩ := h.shaped.parent_place? hq hparent
        simpa [hparent, minimum_insert _ hr] using heq

/-! ### Dropped nodes -/

/-- The tree without some of its nodes. -/
def without (t : Tree) (gone : List NodeId) : Tree :=
  { t with
    nodes := t.nodes.mapIdx fun n node =>
      if n ∈ gone then { node with attached := false } else node }

/-- The nodes that are taken away are still found, but detached. -/
theorem node?_without (t : Tree) (gone : List NodeId) (n : NodeId) :
    (t.without gone).node? n = (t.node? n).map fun node =>
      if n ∈ gone then { node with attached := false } else node := by
  simp [node?, without, Array.getElem?_mapIdx]

/-- The others are found as they were. -/
theorem node?_without_of_notMem (hn : n ∉ gone) : (t.without gone).node? n = t.node? n := by
  rw [node?_without]
  simp [hn]

/-- Dropped nodes are detached, and all others stay where they are. -/
theorem place?_without (t : Tree) (gone : List NodeId) (n : NodeId) :
    (t.without gone).place? n =
      (t.place? n).map fun p => { p with attached := p.attached && decide (n ∉ gone) } := by
  simp only [place?, node?_without]
  cases t.node? n with
  | none => rfl
  | some node => by_cases hn : n ∈ gone <;> simp [hn, Node.place]

/-- No effective level changes when nodes are taken away. -/
theorem effective_without (t : Tree) (gone : List NodeId) (n : NodeId) :
    (t.without gone).effective n = t.effective n := by
  simp only [effective, node?_without]
  cases t.node? n with
  | none => rfl
  | some node => by_cases hn : n ∈ gone <;> simp [hn]

/-- The children that are left are those that were not taken away. -/
theorem isChild_without :
    (t.without gone).isChild n c = true ↔ t.isChild n c = true ∧ c ∉ gone := by
  unfold isChild
  rw [node?_without]
  cases t.node? c with
  | none => simp
  | some node => by_cases hc : c ∈ gone <;> simp [hc]

/-- The nodes of the tree that is left are those that were not taken away. -/
theorem isAttached_without : (t.without gone).IsAttached n ↔ t.IsAttached n ∧ n ∉ gone := by
  unfold IsAttached
  rw [place?_without]
  cases t.place? n with
  | none => simp
  | some p => simp

/-- Trees are the same if their nodes are, and nothing but nodes has changed. -/
theorem ext_nodes (hsame : { u with nodes := t.nodes } = t)
    (hnode : ∀ n, u.node? n = t.node? n) : u = t := by
  have hnodes : u.nodes = t.nodes := Array.ext_getElem? hnode
  rw [← hsame, ← hnodes]

/-- Where nothing is taken away, the tree stays as it is. -/
theorem without_nil (t : Tree) : t.without [] = t :=
  ext_nodes rfl fun _ => node?_without_of_notMem (by simp)

/-- It does not matter in which order nodes are taken away, or how often. -/
theorem without_congr {gone' : List NodeId} (h : ∀ n, n ∈ gone ↔ n ∈ gone') :
    t.without gone = t.without gone' :=
  ext_nodes rfl fun n => by simp only [node?_without, h]

/-- One more node is detached. -/
theorem detach_without (t : Tree) (gone : List NodeId) (n : NodeId) :
    (t.without gone).detach n = t.without (n :: gone) := by
  refine ext_nodes rfl fun c => ?_
  unfold detach
  rw [node?_update, node?_without, node?_without]
  by_cases hc : n = c
  · subst hc
    cases t.node? n with
    | none => simp
    | some node => by_cases hmem : n ∈ gone <;> simp [hmem]
  · simp [hc, Ne.symm hc]

/-- Whether nodes may be dropped together: all below the root, without a reference, and with all
    their children. -/
def Droppable (t : Tree) (gone : List NodeId) : Prop :=
  ∀ n ∈ gone, n ≠ root ∧ t.isReferenced n = false ∧ ∀ c, t.isChild n c = true → c ∈ gone

/-- Nodes that may be dropped together leave a tree in shape. -/
theorem Shaped.without (h : t.Shaped) (hgone : t.Droppable gone) : (t.without gone).Shaped := by
  -- a place after the change was one before
  have hback : ∀ c p, (t.without gone).place? c = some p → ∃ q, t.place? c = some q ∧
      p = { q with attached := q.attached && decide (c ∉ gone) } := by
    intro c p hp
    rw [place?_without] at hp
    obtain ⟨q, hq, rfl⟩ := Option.map_eq_some_iff.1 hp
    exact ⟨q, hq, rfl⟩
  constructor
  case top =>
    obtain ⟨p, hp, hnone, hname, hattached⟩ := h.top
    have hroot : root ∉ gone := fun hmem => (hgone root hmem).1 rfl
    refine ⟨{ p with attached := p.attached && decide (root ∉ gone) }, ?_, hnone, hname, ?_⟩
    · rw [place?_without, hp, Option.map_some]
    · simp [hattached, hroot]
  case parent =>
    intro c p hp hc
    obtain ⟨q, hq, rfl⟩ := hback c p hp
    obtain ⟨m, r, hparent, hlt, hr, hname, hup⟩ := h.parent hq hc
    refine ⟨m, { r with attached := r.attached && decide (m ∉ gone) }, hparent, hlt, ?_, hname, ?_⟩
    · rw [place?_without, hr, Option.map_some]
    · -- with its parent, a child would have been dropped too
      simp only [Bool.and_eq_true, decide_eq_true_eq]
      rintro ⟨hattached, hkept⟩
      refine ⟨hup hattached, ?_⟩
      intro hm
      have hchild : t.isChild m c = true := isChild_iff.2 ⟨q, hq, hattached, hparent⟩
      exact hkept ((hgone m hm).2.2 c hchild)
  case unique =>
    intro c d p q hp hq hpa hqa hparent hsegment
    obtain ⟨p', hp', rfl⟩ := hback c p hp
    obtain ⟨q', hq', rfl⟩ := hback d q hq
    simp only [Bool.and_eq_true] at hpa hqa
    exact h.unique hp' hq' hpa.1 hqa.1 hparent hsegment
  case undotted =>
    intro c p hp
    obtain ⟨q, hq, rfl⟩ := hback c p hp
    exact (h.undotted hq :)
  case capacity =>
    intro c p hp
    obtain ⟨q, hq, rfl⟩ := hback c p hp
    exact (h.capacity hq :)
  case referenced =>
    intro c hc
    have hreferenced : t.isReferenced c = true := isReferenced_iff.2 hc
    rw [isAttached_without]
    refine ⟨h.referenced hc, ?_⟩
    intro hmem
    rw [(hgone c hmem).2.1] at hreferenced
    exact absurd hreferenced (by simp)

/-- Dropping nodes keeps a tree well-formed. -/
theorem WellFormed.later_without (h : t.WellFormed may) (hgone : t.Droppable gone) :
    Later may t (t.without gone) := by
  have hgrows : Grows t (t.without gone) := by
    intro c p hp
    refine ⟨p.attached && decide (c ∉ gone), ?_, ?_⟩
    · rw [place?_without, hp, Option.map_some]
    · intro hattached
      rw [Bool.and_eq_true] at hattached
      exact hattached.1
  refine ⟨⟨h.shaped.without hgone, ?_, ?_⟩, hgrows⟩
  -- neither the levels nor the floors of the nodes that are left have changed
  · intro c node hnode hattached
    have hc := (isAttached_without.1 ⟨_, place?_of_node? hnode, hattached⟩).2
    rw [node?_without_of_notMem hc] at hnode
    exact (h.leveled hnode hattached).congr rfl rfl rfl fun m _ => effective_without t gone m
  · intro c p hp
    rw [place?_without] at hp
    obtain ⟨q, hq, rfl⟩ := Option.map_eq_some_iff.1 hp
    obtain ⟨answer, hanswer, heq⟩ := h.floored hq
    have hminimum : ∀ m, (t.without gone).minimum m = t.minimum m := by
      intro m
      rw [minimum_eq, minimum_eq, place?_without, Option.map_map]
      rfl
    exact ⟨answer, hanswer, by simp only [hminimum]; exact heq⟩

/-- What it takes for a node to be idle. -/
theorem isIdle_iff : t.isIdle n = true ↔ ∃ node, t.node? n = some node ∧
    node.parent?.isSome = true ∧ node.attached = true ∧ t.isReferenced n = false ∧
    t.children n = [] ∧ hasNoState node = true := by
  unfold isIdle
  cases h : t.node? n with
  | none => simp
  | some node => simp [and_assoc]

/-- Every node but the root was made below another. -/
theorem Shaped.parent?_isSome_iff (h : t.Shaped) (hnode : t.node? n = some node) :
    node.parent?.isSome = true ↔ n ≠ root := by
  have hroot := h.isRoot_iff (place?_of_node? hnode)
  rw [isRoot, hnode, Option.any_some] at hroot
  rw [← Option.not_isNone, hroot]
  simp

/-- Dropping an idle node keeps a tree well-formed. -/
theorem WellFormed.later_detach (h : t.WellFormed may) (hidle : t.isIdle n = true) :
    Later may t (t.detach n) := by
  obtain ⟨node, hnode, hparent, -, hfree, hchildless, -⟩ := isIdle_iff.1 hidle
  have hdetach : t.detach n = t.without [n] := by
    rw [← detach_without, without_nil]
  rw [hdetach]
  refine h.later_without ?_
  intro m hm
  obtain rfl := List.mem_singleton.1 hm
  refine ⟨(h.shaped.parent?_isSome_iff hnode).1 hparent, hfree, ?_⟩
  intro c hc
  have hmem := mem_children.2 hc
  rw [hchildless] at hmem
  exact absurd hmem (by simp)

end LoggerHierarchy.Tree
