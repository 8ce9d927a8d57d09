import LoggerHierarchy.Attachments
import LoggerHierarchy.HandlerList
import LoggerHierarchy.Level.Basic
import LoggerHierarchy.Record

namespace LoggerHierarchy

/-!
# The logger tree

The nodes of one context in the order of their creation.  A node's number is its identity: numbers
are never used again, and a parent's number is smaller than its children's.

* `Handler`, `Filter` — collaborators from the outside, known by their identity;
* `Node` — the settings of one logger name;
* `Tree` — the nodes, the references to them from the outside, and the counters;
* `Tree.isAlive` — whether some chain of references keeps a node;
* `Tree.parent?`, `Tree.child?`, `Tree.find?` — the neighbours of a node and the node at the end of
  a path;
* `Tree.contains` — whether a node still hangs below the root.
-/

/-- A receiver of records; its name is only shown. -/
structure Handler where
  serial : Nat
  name : String
  deriving DecidableEq, Repr

/-- A predicate on records. -/
structure Filter where
  serial : Nat
  deriving DecidableEq, Repr

/-- The types of values that may be attached to a node. -/
inductive PayloadKind where
  | text
  | number
  deriving DecidableEq, Repr

/-- The values of a type that may be attached. -/
def PayloadKind.Value : PayloadKind → Type
  | text => String
  | number => Int64

/-- The number of attachment slots of a node. -/
def Node.attachmentCapacity : Nat := 3

/-- The number of a node. -/
abbrev NodeId := Nat

/-- The settings of one logger name. -/
structure Node where
  /-- The node above, none for the root. -/
  parent? : Option NodeId
  /-- The last segment of the node's path. -/
  segment : String
  /-- The full name. -/
  name : String
  /-- The floor under the effective level, fixed for good. -/
  minimum : Int32
  /-- The level that was set here, if any. -/
  level : Option Level
  /-- The severity from which records are taken. -/
  effective : Int32
  filter : Option Filter := none
  /-- Whether records have to pass the parent's filter too. -/
  useParentFilters : Bool := false
  handlers : HandlerList Handler := .unset
  /-- Whether records go on to the parent's handlers. -/
  useParentHandlers : Bool := true
  /-- Whether a logger was ever handed out for this name. -/
  hasLogger : Bool := false
  attachments : Attachments PayloadKind.Value := .empty Node.attachmentCapacity
  /-- Whether the node is among the children of its parent. -/
  attached : Bool := true

/-- The nodes of one context. -/
structure Tree where
  nodes : Array Node := #[]
  /-- Whether the context still holds the root. -/
  isOpen : Bool := true
  /-- The nodes to which the outside holds references, each as often as it does. -/
  held : List NodeId := []
  /-- The nodes to which operations under way hold references. -/
  pins : List NodeId := []
  /-- How many nodes were inserted below the root. -/
  created : Nat := 0
  /-- How many level settings changed an effective level. -/
  levelChanges : Nat := 0

namespace Tree

/-! ### Nodes -/

/-- The root's number. -/
def root : NodeId := 0

def node? (t : Tree) (n : NodeId) : Option Node :=
  t.nodes[n]?

/-- Changes the settings of one node. -/
def update (t : Tree) (n : NodeId) (f : Node → Node) : Tree :=
  { t with nodes := t.nodes.modify n f }

/-- The full name of a node. -/
def name (t : Tree) (n : NodeId) : String :=
  ((t.node? n).map (·.name)).getD ""

/-- The floor under the effective level of a node. -/
def minimum (t : Tree) (n : NodeId) : Int32 :=
  ((t.node? n).map (·.minimum)).getD 0

/-- The effective level of a node. -/
def effective (t : Tree) (n : NodeId) : Int32 :=
  ((t.node? n).map (·.effective)).getD 0

/-- Whether the node was made without a parent. -/
def isRoot (t : Tree) (n : NodeId) : Bool :=
  (t.node? n).any (·.parent?.isNone)

/-! ### References -/

/-- One more reference from the outside. -/
def hold (t : Tree) (n : NodeId) : Tree :=
  { t with held := n :: t.held }

/-- One reference less from the outside. -/
def release (t : Tree) (n : NodeId) : Tree :=
  { t with held := t.held.erase n }

/-- One more reference from an operation under way. -/
def pin (t : Tree) (n : NodeId) : Tree :=
  { t with pins := n :: t.pins }

/-- One reference less from an operation under way. -/
def unpin (t : Tree) (n : NodeId) : Tree :=
  { t with pins := t.pins.erase n }

/-- The context gives up the root. -/
def close (t : Tree) : Tree :=
  { t with isOpen := false }

/-- Whether something besides the tree itself refers to the node. -/
def isReferenced (t : Tree) (n : NodeId) : Bool :=
  t.held.contains n || t.pins.contains n

/-- Whether the node is kept: by a reference, as the root of an open context, or as a child of a
    node that is kept. -/
def isAlive (t : Tree) (n : NodeId) : Bool :=
  match t.node? n with
  | none => false
  | some node =>
    t.isReferenced n ||
      match node.parent? with
      | none => t.isOpen
      | some p => if p < n then node.attached && t.isAlive p else false
termination_by n

/-- The parent of a node, while it is kept. -/
def parent? (t : Tree) (n : NodeId) : Option NodeId :=
  ((t.node? n).bind (·.parent?)).filter fun p => decide (p < n) && t.isAlive p

/-- A parent's number is smaller. -/
theorem lt_of_parent? {t : Tree} {n p : NodeId} (h : t.parent? n = some p) : p < n := by
  obtain ⟨-, h⟩ := Option.filter_eq_some_iff.1 h
  simp only [Bool.and_eq_true, decide_eq_true_eq] at h
  exact h.1

/-! ### Children and paths -/

/-- Whether `c` is among the children of `n`. -/
def isChild (t : Tree) (n c : NodeId) : Bool :=
  (t.node? c).any fun node => node.attached && decide (node.parent? = some n)

/-- The children of a node, oldest first. -/
def children (t : Tree) (n : NodeId) : List NodeId :=
  (List.range t.nodes.size).filter (t.isChild n)

/-- The child that a segment leads to. -/
def child? (t : Tree) (n : NodeId) (segment : String) : Option NodeId :=
  (List.range t.nodes.size).find? fun c =>
    t.isChild n c && (t.node? c).any fun node => decide (node.segment = segment)

/-- The node at the end of a path of existing children. -/
def find? (t : Tree) (n : NodeId) : List String → Option NodeId
  | [] => some n
  | segment :: rest => (t.child? n segment).bind (t.find? · rest)

/-- Whether the node is the root or reached from it through children. -/
def contains (t : Tree) (n : NodeId) : Bool :=
  match t.node? n with
  | none => false
  | some node =>
    match node.parent? with
    | none => true
    | some p => if p < n then node.attached && t.contains p else false
termination_by n

/-- The nodes of the tree, oldest first. -/
def members (t : Tree) : List NodeId :=
  (List.range t.nodes.size).filter t.contains

/-- Hands out a logger for the node, which the node remembers. -/
def createLogger (t : Tree) (n : NodeId) : Tree :=
  t.update n fun node => { node with hasLogger := true }

/-- The names for which a logger was ever handed out. -/
def loggerNames (t : Tree) : List String :=
  (t.members.filterMap t.node?).filterMap fun node =>
    if node.hasLogger then some node.name else none

@[simp] theorem find?_nil (t : Tree) (n : NodeId) : t.find? n [] = some n := rfl

@[simp] theorem find?_cons (t : Tree) (n : NodeId) (segment : String) (rest : List String) :
    t.find? n (segment :: rest) = (t.child? n segment).bind (t.find? · rest) := rfl

@[simp] theorem node?_update (t : Tree) (n m : NodeId) (f : Node → Node) :
    (t.update n f).node? m = if n = m then (t.node? m).map f else t.node? m := by
  simp [node?, update, Array.getElem?_modify]

end Tree

end LoggerHierarchy
