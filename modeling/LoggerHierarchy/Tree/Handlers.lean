import LoggerHierarchy.Tree.Outside

namespace LoggerHierarchy.Tree

/-!
# The handler lists of a tree

* `NodeSnapshot` — a snapshot together with the node it was taken from;
* `handlers`, `addHandler`, `removeHandler` — uses of a node's list, which fetch it first;
* `setHandlers`, `clearHandlers`, `compareAndSetHandlers` — changes that ask nobody.
-/

/-- A snapshot of the handlers of one node. -/
structure NodeSnapshot where
  node : NodeId
  snapshot : Snapshot Handler
  deriving DecidableEq, Repr

/-- The handler list of a node. -/
def handlerList (t : Tree) (n : NodeId) : HandlerList Handler :=
  ((t.node? n).map (·.handlers)).getD .unset

def withHandlerList (t : Tree) (n : NodeId) (list : HandlerList Handler) : Tree :=
  t.update n fun node => { node with handlers := list }

/-- The handler list of `n` as a part of the tree; its source is what is configured under the name
    of the node. -/
def handlerListOf (n : NodeId) (name : String) :
    Dialogue.Embedding (HandlerList.source Handler) outside (HandlerList Handler) Tree where
  get t := t.handlerList n
  set t list := t.withHandlerList n list
  question _ := .handlers name
  answer _ handlers := handlers

/-- A use of the handler list of a node. -/
def onHandlers {α : Type} (n : NodeId)
    (use : Program (HandlerList.source Handler) (HandlerList Handler) α) : Run α :=
  pinned n fun t => use.within (handlerListOf n (t.name n)) t

/-- The handlers of a node. -/
def handlers (n : NodeId) : Run NodeSnapshot := do
  return ⟨n, ← onHandlers n HandlerList.fetch⟩

def addHandler (n : NodeId) (handler : Handler) : Run Unit :=
  onHandlers n (HandlerList.add handler)

def removeHandler (n : NodeId) (handler : Handler) : Run Unit :=
  onHandlers n (HandlerList.remove handler)

/-- Replaces the handlers of a node and returns the snapshot before. -/
def setHandlers (t : Tree) (n : NodeId) (handlers : List Handler) : NodeSnapshot × Tree :=
  let (previous, list) := (t.handlerList n).set handlers
  (⟨n, previous⟩, t.withHandlerList n list)

/-- Empties the handlers of a node and returns the snapshot before. -/
def clearHandlers (t : Tree) (n : NodeId) : NodeSnapshot × Tree :=
  t.setHandlers n []

/-- Replaces the handlers of a node only while `expected` is its current snapshot. -/
def compareAndSetHandlers (t : Tree) (n : NodeId) (expected : NodeSnapshot)
    (handlers : List Handler) : Bool × Tree :=
  if expected.node = n then
    let (swapped, list) := (t.handlerList n).compareAndSet expected.snapshot handlers
    (swapped, t.withHandlerList n list)
  else (false, t)

end LoggerHierarchy.Tree
