import LoggerHierarchy.Name
import LoggerHierarchy.Tree.Basic

namespace LoggerHierarchy

/-!
# The shape of a tree

Where the nodes of a tree stand, apart from their settings:

* `Place` — what is fixed about a node when it is made, and whether it was detached since;
* `Tree.IsAttached`, `Tree.Link` — a node that was not detached, and the segment it hangs from;
* `Tree.Shaped` — the invariant: attached nodes form one tree below the root, in which a segment
  leads to one child at most, and every referenced node is attached;
* `Tree.path` — the segments from the root to a node; `Tree.find?_path` follows them back to it;
* `Tree.contains_iff`, `Tree.isAlive_of_attached` — attached nodes hang below the root, and are kept
  while the context is open.
-/

/-- What is fixed about a node when it is made, and whether it was detached since. -/
structure Place where
  parent? : Option NodeId
  segment : String
  name : String
  minimum : Int32
  /-- The number of its attachment slots. -/
  capacity : Nat
  attached : Bool

def Node.place (node : Node) : Place where
  parent? := node.parent?
  segment := node.segment
  name := node.name
  minimum := node.minimum
  capacity := node.attachments.capacity
  attached := node.attached

namespace Tree

variable {t u : Tree} {n m c : NodeId} {p q : Place} {segment : String}

/-- Where a node stands. -/
def place? (t : Tree) (n : NodeId) : Option Place :=
  (t.node? n).map Node.place

/-- Whether a node exists and was not detached. -/
def IsAttached (t : Tree) (n : NodeId) : Prop :=
  ∃ p, t.place? n = some p ∧ p.attached = true

/-- Whether `c` hangs below `n` and `segment` leads from there to it. -/
def Link (t : Tree) (n : NodeId) (segment : String) (c : NodeId) : Prop :=
  ∃ p, t.place? c = some p ∧ p.attached = true ∧ p.parent? = some n ∧ p.segment = segment

/-- The invariant about where nodes stand. -/
structure Shaped (t : Tree) : Prop where
  top : ∃ p, t.place? root = some p ∧ p.parent? = none ∧ p.name = "" ∧ p.attached = true
  /-- All other nodes were made after their parent, are named after it, and were detached before it
      if it was. -/
  parent {n : NodeId} {p : Place} : t.place? n = some p → n ≠ root →
    ∃ m q, p.parent? = some m ∧ m < n ∧ t.place? m = some q ∧
      p.name = Name.child (decide (m = root)) q.name p.segment ∧
      (p.attached = true → q.attached = true)
  /-- A segment leads to one child at most. -/
  unique {n m : NodeId} {p q : Place} : t.place? n = some p → t.place? m = some q →
    p.attached = true → q.attached = true → p.parent? = q.parent? → p.segment = q.segment → n = m
  undotted {n : NodeId} {p : Place} : t.place? n = some p → '.' ∉ p.segment.toList
  capacity {n : NodeId} {p : Place} : t.place? n = some p → p.capacity = Node.attachmentCapacity
  referenced {n : NodeId} : n ∈ t.held ∨ n ∈ t.pins → t.IsAttached n

/-- A place is that of some node. -/
theorem place?_eq_some {t : Tree} {n : NodeId} {p : Place} :
    t.place? n = some p ↔ ∃ node, t.node? n = some node ∧ node.place = p :=
  Option.map_eq_some_iff

/-- A node that is found has its place. -/
theorem place?_of_node? {node : Node} (h : t.node? n = some node) :
    t.place? n = some node.place :=
  place?_eq_some.2 ⟨node, h, rfl⟩

/-- Whether a node is attached is told by its place. -/
theorem IsAttached.of_place?_eq (hn : t.IsAttached n) (hplace : u.place? n = t.place? n) :
    u.IsAttached n := by
  obtain ⟨p, hp, hattached⟩ := hn
  exact ⟨p, hplace.trans hp, hattached⟩

/-- Ids are below the number of nodes. -/
theorem lt_size_of_place? (h : t.place? n = some p) : n < t.nodes.size := by
  obtain ⟨node, hnode, -⟩ := place?_eq_some.1 h
  exact (Array.getElem?_eq_some_iff.1 hnode).1

/-- References are held by the outside or by operations under way. -/
theorem isReferenced_iff : t.isReferenced n = true ↔ n ∈ t.held ∨ n ∈ t.pins := by
  simp [isReferenced]

/-- The parent that a node finds is the one it was made with. -/
theorem parent?_of_some {node : Node} (hnode : t.node? n = some node)
    (h : t.parent? n = some m) : node.parent? = some m := by
  obtain ⟨h, -⟩ := Option.filter_eq_some_iff.1 h
  simpa [hnode] using h

/-! ### Children -/

/-- Children are attached nodes that name the node as their parent. -/
theorem isChild_iff :
    t.isChild n c = true ↔ ∃ p, t.place? c = some p ∧ p.attached = true ∧ p.parent? = some n := by
  unfold isChild place?
  cases h : t.node? c with
  | none => simp
  | some node => simp [Node.place]

/-- A link leads to a child. -/
theorem Link.isChild (h : t.Link n segment c) : t.isChild n c = true := by
  obtain ⟨p, hp, hattached, hparent, -⟩ := h
  exact isChild_iff.2 ⟨p, hp, hattached, hparent⟩

/-- A link leads to a node of the tree. -/
theorem Link.isAttached (h : t.Link n segment c) : t.IsAttached c := by
  obtain ⟨p, hp, hattached, -⟩ := h
  exact ⟨p, hp, hattached⟩

/-- The children are listed without omission. -/
theorem mem_children : c ∈ t.children n ↔ t.isChild n c = true := by
  simp only [children, List.mem_filter, List.mem_range, and_iff_right_iff_imp]
  intro h
  obtain ⟨p, hp, -⟩ := isChild_iff.1 h
  exact lt_size_of_place? hp

/-- The test by which a child is looked up. -/
private theorem link_iff :
    (t.isChild n c && (t.node? c).any fun node => decide (node.segment = segment)) = true ↔
      t.Link n segment c := by
  rw [Bool.and_eq_true, isChild_iff]
  unfold Link place?
  cases h : t.node? c with
  | none => simp
  | some node => simp [Node.place, and_assoc]

/-- A child that is found under a segment is linked by it. -/
theorem link_of_child? (h : t.child? n segment = some c) : t.Link n segment c := by
  have htest := List.find?_some (show List.find? _ _ = some c from h)
  exact link_iff.1 htest

/-- No child is found just when none is linked. -/
theorem child?_eq_none_iff : t.child? n segment = none ↔ ∀ c, ¬ t.Link n segment c := by
  unfold child?
  rw [List.find?_eq_none]
  constructor
  · intro h c hc
    obtain ⟨p, hp, -⟩ := id hc
    exact h c (List.mem_range.2 (lt_size_of_place? hp)) (link_iff.2 hc)
  · exact fun h c _ hc => h c (link_iff.1 hc)

/-! ### The tree below the root -/

namespace Shaped

variable (h : t.Shaped)

include h

/-- The root is always in the tree. -/
theorem root_isAttached : t.IsAttached root := by
  obtain ⟨p, hp, -, -, hattached⟩ := h.top
  exact ⟨p, hp, hattached⟩

/-- What a node's link to its parent stands for. -/
theorem parent_place? (hp : t.place? n = some p) (hparent : p.parent? = some m) :
    m < n ∧ ∃ q, t.place? m = some q ∧
      p.name = Name.child (decide (m = root)) q.name p.segment ∧
      (p.attached = true → q.attached = true) := by
  obtain ⟨r, hr, hnone, -⟩ := h.top
  have hn : n ≠ root := by
    rintro rfl
    rw [hr, Option.some.injEq] at hp
    rw [← hp, hnone] at hparent
    exact absurd hparent (by simp)
  obtain ⟨k, q, hk, hrest⟩ := h.parent hp hn
  rw [hparent, Option.some.injEq] at hk
  subst hk
  exact ⟨hrest.1, q, hrest.2⟩

/-- The parent of a node was made before it. -/
theorem parent_lt (hp : t.place? n = some p) (hparent : p.parent? = some m) : m < n :=
  (h.parent_place? hp hparent).1

/-- The parent of an attached node is attached. -/
theorem parent_isAttached (hp : t.place? n = some p) (hattached : p.attached = true)
    (hparent : p.parent? = some m) : t.IsAttached m := by
  obtain ⟨-, q, hq, -, hup⟩ := h.parent_place? hp hparent
  exact ⟨q, hq, hup hattached⟩

/-- A parent was made before its children, and is still found. -/
theorem parent_node? {node : Node} (hnode : t.node? n = some node)
    (hparent : node.parent? = some m) : m < n ∧ ∃ above, t.node? m = some above := by
  obtain ⟨hlt, q, hq, -⟩ := h.parent_place? (place?_of_node? hnode) hparent
  obtain ⟨above, habove, -⟩ := place?_eq_some.1 hq
  exact ⟨hlt, above, habove⟩

/-- A link goes to a younger node, and only from a node of the tree. -/
theorem link_parent (hc : t.Link n segment c) : n < c ∧ t.IsAttached n := by
  obtain ⟨p, hp, hattached, hparent, -⟩ := hc
  exact ⟨h.parent_lt hp hparent, h.parent_isAttached hp hattached hparent⟩

/-- An attached node other than the root hangs from a segment of its parent. -/
theorem exists_link (hp : t.place? n = some p) (hattached : p.attached = true) (hn : n ≠ root) :
    ∃ m, p.parent? = some m ∧ t.Link m p.segment n := by
  obtain ⟨m, q, hparent, -⟩ := h.parent hp hn
  exact ⟨m, hparent, p, hp, hattached, hparent, rfl⟩

/-- No two children share a segment. -/
theorem link_unique {c d : NodeId} (hc : t.Link n segment c) (hd : t.Link n segment d) :
    c = d := by
  obtain ⟨p, hp, hpattached, hpparent, hpsegment⟩ := hc
  obtain ⟨q, hq, hqattached, hqparent, hqsegment⟩ := hd
  exact h.unique hp hq hpattached hqattached (hpparent.trans hqparent.symm)
    (hpsegment.trans hqsegment.symm)

/-- A child is found under a segment just when it is linked by it. -/
theorem child?_eq_some_iff : t.child? n segment = some c ↔ t.Link n segment c := by
  refine ⟨link_of_child?, fun hc => ?_⟩
  cases hd : t.child? n segment with
  | none => exact absurd hc (child?_eq_none_iff.1 hd c)
  | some d => rw [h.link_unique hc (link_of_child? hd)]

/-- The check for a parent tells the root from all other nodes. -/
theorem isRoot_iff (hp : t.place? n = some p) : t.isRoot n = decide (n = root) := by
  obtain ⟨node, hnode, rfl⟩ := place?_eq_some.1 hp
  obtain ⟨r, hr, hnone, -⟩ := h.top
  simp only [isRoot, hnode, Option.any_some]
  by_cases hn : n = root
  · subst hn
    rw [hr, Option.some.injEq] at hp
    rw [hp] at hnone
    have hparent : node.parent? = none := hnone
    simp [hparent]
  · obtain ⟨m, q, hparent, -⟩ := h.parent hp hn
    have hparent : node.parent? = some m := hparent
    simp [hparent, hn]

end Shaped

/-! ### Paths -/

/-- The segments that lead from the root to a node. -/
def path (t : Tree) (n : NodeId) : List String :=
  match t.node? n with
  | none => []
  | some node =>
    match node.parent? with
    | none => []
    | some m => if m < n then t.path m ++ [node.segment] else []
termination_by n

/-- A path in two parts is followed in two steps. -/
theorem find?_append (t : Tree) (n : NodeId) (front back : List String) :
    t.find? n (front ++ back) = (t.find? n front).bind (t.find? · back) := by
  induction front generalizing n with
  | nil => rfl
  | cons segment front ih =>
    simp only [List.cons_append, find?_cons]
    cases t.child? n segment with
    | none => rfl
    | some c => simpa using ih c

/-- Where a path of children leads from an attached node is attached. -/
theorem isAttached_of_find? {front : List String} (hn : t.IsAttached n)
    (h : t.find? n front = some m) : t.IsAttached m := by
  induction front generalizing n with
  | nil =>
    obtain rfl : n = m := by simpa using h
    exact hn
  | cons segment front ih =>
    rw [find?_cons, Option.bind_eq_some_iff] at h
    obtain ⟨c, hc, h⟩ := h
    exact ih (link_of_child? hc).isAttached h

namespace Shaped

variable (h : t.Shaped)

include h

/-- The path to the root is empty. -/
theorem path_root : t.path root = [] := by
  obtain ⟨p, hp, hnone, -⟩ := h.top
  obtain ⟨node, hnode, rfl⟩ := place?_eq_some.1 hp
  have hnone : node.parent? = none := hnone
  unfold path
  simp [hnode, hnone]

/-- The path to a node extends that to its parent by its own segment. -/
theorem path_of_place? (hp : t.place? n = some p) (hparent : p.parent? = some m) :
    t.path n = t.path m ++ [p.segment] := by
  have hlt : m < n := h.parent_lt hp hparent
  obtain ⟨node, hnode, rfl⟩ := place?_eq_some.1 hp
  have hparent : node.parent? = some m := hparent
  rw [path]
  simp [hnode, hparent, hlt, Node.place]

/-- A path that leads from a node to another is the rest of the path of that one. -/
theorem path_of_find? {back : List String} (hfind : t.find? n back = some m) :
    t.path m = t.path n ++ back := by
  induction back generalizing n with
  | nil =>
    obtain rfl : n = m := by simpa using hfind
    simp
  | cons segment rest ih =>
    rw [find?_cons, Option.bind_eq_some_iff] at hfind
    obtain ⟨c, hc, hfind⟩ := hfind
    obtain ⟨p, hp, -, hparent, rfl⟩ := link_of_child? hc
    rw [ih hfind, h.path_of_place? hp hparent, List.append_assoc]
    rfl

/-- No segment of a path holds a dot. -/
theorem undotted_path (n : NodeId) : ∀ segment ∈ t.path n, '.' ∉ segment.toList := by
  induction n using Nat.strongRecOn with
  | ind n ih =>
    intro segment hsegment
    rw [path] at hsegment
    split at hsegment
    · exact absurd hsegment (by simp)
    · rename_i node hnode
      split at hsegment
      · exact absurd hsegment (by simp)
      · rename_i m _
        by_cases hlt : m < n
        · rw [if_pos hlt, List.mem_append, List.mem_singleton] at hsegment
          obtain hsegment | rfl := hsegment
          · exact ih m hlt segment hsegment
          · exact h.undotted (place?_of_node? hnode)
        · rw [if_neg hlt] at hsegment
          exact absurd hsegment (by simp)

/-- The path of an attached node leads from the root to it. -/
theorem find?_path (hn : t.IsAttached n) : t.find? root (t.path n) = some n := by
  induction n using Nat.strongRecOn with
  | ind n ih =>
    by_cases hroot : n = root
    · rw [hroot, h.path_root, find?_nil]
    · obtain ⟨p, hp, hattached⟩ := hn
      obtain ⟨m, hparent, hlink⟩ := h.exists_link hp hattached hroot
      obtain ⟨hlt, hm⟩ := h.link_parent hlink
      rw [h.path_of_place? hp hparent, find?_append, ih m hlt hm]
      simp [h.child?_eq_some_iff.2 hlink]

/-- What is missing from the path of an attached node to that of another leads there. -/
theorem find?_eq_some_iff {back : List String} (hn : t.IsAttached n) (hm : t.IsAttached m) :
    t.find? n back = some m ↔ t.path m = t.path n ++ back := by
  refine ⟨h.path_of_find?, fun hpath => ?_⟩
  have hfind := h.find?_path hm
  rwa [hpath, find?_append, h.find?_path hn] at hfind

/-- Attached nodes are told by their paths. -/
theorem eq_of_path_eq (hn : t.IsAttached n) (hm : t.IsAttached m) (hpath : t.path n = t.path m) :
    n = m := by
  have hfind := h.find?_path hn
  rw [hpath, h.find?_path hm] at hfind
  exact (Option.some.inj hfind).symm

/-- The nodes that hang below the root are the attached ones. -/
theorem contains_iff : t.contains n = true ↔ t.IsAttached n := by
  induction n using Nat.strongRecOn with
  | ind n ih =>
    rw [contains]
    cases hnode : t.node? n with
    | none => simp [IsAttached, place?, hnode]
    | some node =>
      have hp := place?_of_node? hnode
      have hiff : t.IsAttached n ↔ node.attached = true := by simp [IsAttached, hp, Node.place]
      by_cases hroot : n = root
      · obtain ⟨r, hr, hnone, -⟩ := h.top
        rw [← hroot, hp, Option.some.injEq] at hr
        have hnone : node.parent? = none := by rw [← hr] at hnone; exact hnone
        simp only [hnone, true_iff]
        exact hroot ▸ h.root_isAttached
      · obtain ⟨m, q, hparent, hlt, -, -, hup⟩ := h.parent hp hroot
        have hparent : node.parent? = some m := hparent
        simp only [hparent, hlt, if_true, Bool.and_eq_true, ih m hlt, hiff, and_iff_left_iff_imp]
        exact fun hattached => h.parent_isAttached hp hattached hparent

/-- While the context is open, attached nodes are kept. -/
theorem isAlive_of_attached (hopen : t.isOpen = true) (hn : t.IsAttached n) :
    t.isAlive n = true := by
  induction n using Nat.strongRecOn with
  | ind n ih =>
    obtain ⟨p, hp, hattached⟩ := hn
    obtain ⟨node, hnode, rfl⟩ := place?_eq_some.1 hp
    rw [isAlive]
    simp only [hnode, Bool.or_eq_true]
    right
    cases hparent : node.parent? with
    | none => exact hopen
    | some m =>
      have hlt : m < n := h.parent_lt hp hparent
      have hm := ih m hlt (h.parent_isAttached hp hattached hparent)
      have hattached : node.attached = true := hattached
      simp [hlt, hattached, hm]

/-- While the context is open, the parent of an attached node is present. -/
theorem parent?_eq (hopen : t.isOpen = true) (hp : t.place? n = some p)
    (hattached : p.attached = true) : t.parent? n = p.parent? := by
  obtain ⟨node, hnode, rfl⟩ := place?_eq_some.1 hp
  unfold parent?
  rw [hnode, Option.bind_some]
  change node.parent?.filter _ = node.parent?
  cases hparent : node.parent? with
  | none => rfl
  | some m =>
    have hlt : m < n := h.parent_lt hp hparent
    have hm := h.isAlive_of_attached hopen (h.parent_isAttached hp hattached hparent)
    simp [Option.filter, hlt, hm]

end Shaped

end Tree

end LoggerHierarchy
