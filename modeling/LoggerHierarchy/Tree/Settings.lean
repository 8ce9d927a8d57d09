import LoggerHierarchy.Tree.Basic

namespace LoggerHierarchy.Tree

/-!
# The settings of a node

Settings that are stored as they are given and ask nobody:

* `setFilter`, `setUseParentFilters`, `setUseParentHandlers` — the filter and the two ways to
  delegate;
* `attach`, `attachIfAbsent`, `detachValue`, `attachment?` — the attachments of a node.
-/

def setFilter (t : Tree) (n : NodeId) (filter : Option Filter) : Tree :=
  t.update n fun node => { node with filter }

def setUseParentFilters (t : Tree) (n : NodeId) (on : Bool) : Tree :=
  t.update n fun node => { node with useParentFilters := on }

def setUseParentHandlers (t : Tree) (n : NodeId) (on : Bool) : Tree :=
  t.update n fun node => { node with useParentHandlers := on }

/-! ### Attachments -/

/-- The attachments of a node. -/
def attachments (t : Tree) (n : NodeId) : Attachments PayloadKind.Value :=
  ((t.node? n).map (·.attachments)).getD (.empty Node.attachmentCapacity)

def withAttachments (t : Tree) (n : NodeId) (attachments : Attachments PayloadKind.Value) : Tree :=
  t.update n fun node => { node with attachments }

/-- Keeps what a way to attach makes of the attachments of a node; a refusal changes nothing. -/
def attachedBy {α : Type} (t : Tree) (n : NodeId)
    (result : Except Error (α × Attachments PayloadKind.Value)) : Except Error α × Tree :=
  match result with
  | .ok (previous, attachments) => (.ok previous, t.withAttachments n attachments)
  | .error e => (.error e, t)

/-- Attaches a value to a node, in place of the key's value if it has one, which is returned. -/
def attach (t : Tree) (n : NodeId) (key : Attachments.Key PayloadKind) (value : key.kind.Value) :
    Except Error (Option key.kind.Value) × Tree :=
  t.attachedBy n ((t.attachments n).attach key value)

/-- Attaches a value to a node unless the key has one, which is returned and stays. -/
def attachIfAbsent (t : Tree) (n : NodeId) (key : Attachments.Key PayloadKind)
    (value : key.kind.Value) : Except Error (Option key.kind.Value) × Tree :=
  t.attachedBy n ((t.attachments n).attachIfAbsent key value)

/-- Takes the value of a key away from a node and returns it. -/
def detachValue (t : Tree) (n : NodeId) (key : Attachments.Key PayloadKind) :
    Option key.kind.Value × Tree :=
  let (value, attachments) := (t.attachments n).detach key
  (value, t.withAttachments n attachments)

/-- The value that is attached to a node under a key. -/
def attachment? (t : Tree) (n : NodeId) (key : Attachments.Key PayloadKind) :
    Option key.kind.Value :=
  (t.attachments n).get? key

end LoggerHierarchy.Tree
