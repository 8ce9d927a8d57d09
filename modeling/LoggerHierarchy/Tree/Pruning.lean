import LoggerHierarchy.Tree.Handlers

namespace LoggerHierarchy.Tree

/-!
# Pruning

A node that holds nothing a configuration would not give back may be dropped and made again when its
name is next used:

* `isIdle` — nothing refers to the node, it has no children, and all its settings but the handlers
  are as they were made;
* `pruneNode` — drops one node, if its handlers too would come back the same;
* `prune` — does so for all nodes, children before their parents, and counts the dropped ones.
-/

/-- The event of a dropped node. -/
def prunedNode (parent segment : String) : Event :=
  ⟨.trace, "Pruned logger node", [("parent", .text parent), ("segment", .text segment)]⟩

/-- The event at the end of a pruning. -/
def prunedTree (removed : Nat) : Event :=
  ⟨.debug, "Pruned logger tree", [("removed", .number removed)]⟩

/-- Whether a node's settings, its handlers apart, are those of a node without configured level. -/
def hasNoState (node : Node) : Bool :=
  !node.hasLogger && node.level.isNone && node.filter.isNone && !node.useParentFilters &&
    node.useParentHandlers && node.attachments.isEmpty

/-- Whether only its handlers may still keep a node from being dropped. -/
def isIdle (t : Tree) (n : NodeId) : Bool :=
  (t.node? n).any fun node =>
    node.parent?.isSome && node.attached && !t.isReferenced n && (t.children n).isEmpty &&
      hasNoState node

/-- Takes a node from its parent's children. -/
def detach (t : Tree) (n : NodeId) : Tree :=
  t.update n fun node => { node with attached := false }

/-- Whether the handlers of a node would come back the same: they were never fetched or set, or
    there are none and none are configured. -/
def handlersReproducible (n : NodeId) : Run Bool := do
  let list := (← get).handlerList n
  if list.isInitialized then
    if list.items.isEmpty then return (← askHandlersForRemoval ((← get).name n)).isEmpty
    else return false
  else return true

/-- Drops a node that may be dropped, and tells whether it did. -/
def pruneNode (n : NodeId) : Run Bool := do
  if (← get).isIdle n then
    if ← handlersReproducible n then
      let t ← get
      set (t.detach n)
      -- an idle node has a parent
      let parent := ((t.node? n).bind (·.parent?)).getD root
      Program.announce (prunedNode (t.name parent) (((t.node? n).map (·.segment)).getD ""))
      return true
    else return false
  else return false

/-- Drops the nodes of a list that may be dropped, in order, and counts them. -/
def pruneNodes : List NodeId → Run Nat
  | [] => pure 0
  | n :: rest => do
    let dropped ← pruneNode n
    let more ← pruneNodes rest
    return (if dropped then 1 else 0) + more

/-- Drops all nodes that may be dropped, and counts them. -/
def prune : Run Nat := do
  let removed ← pruneNodes (List.range (← get).nodes.size).reverse
  Program.announce (prunedTree removed)
  return removed

end LoggerHierarchy.Tree
