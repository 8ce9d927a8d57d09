import LoggerHierarchy.Tree.Registry

namespace LoggerHierarchy.Tree

/-!
# Loggers

A logger is a reference to a node, and the node remembers that one was handed out.  Besides
`createLogger` for a node in hand, there are four ways to a logger:

* `rootLogger` — that of the root;
* `logger` — that of a name, whose node is made if it is missing;
* `loggerIfExists` — that of a name whose node exists;
* `parentLogger` — that of the node above the node of a logger.
-/

/-- The logger of a node that was found, if one was. -/
def loggerOf? (found : Option NodeId) : Run (Option NodeId) := do
  match found with
  | some n =>
    modify (·.createLogger n)
    return some n
  | none => return none

/-- The logger of the root. -/
def rootLogger : Run NodeId := do
  modify (·.createLogger root)
  return root

/-- The logger of a name. -/
def logger (name : String) : Run NodeId := do
  let n ← getOrCreate root name
  modify (·.createLogger n)
  return n

/-- The logger of a name, if there is a node for it. -/
def loggerIfExists (name : String) : Run (Option NodeId) := do
  loggerOf? ((← get).getIfExists root name)

/-- The logger of the node above, if there is one. -/
def parentLogger (n : NodeId) : Run (Option NodeId) := do
  loggerOf? ((← get).parent? n)

end LoggerHierarchy.Tree
