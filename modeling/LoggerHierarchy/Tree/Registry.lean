import LoggerHierarchy.Level.Show
import LoggerHierarchy.Name
import LoggerHierarchy.Tree.Levels

namespace LoggerHierarchy.Tree

/-!
# Making nodes

* `plant` — makes the root of an empty tree;
* `createChild` — makes a child: its floor and its level are asked first, and a child that was made
  meanwhile under the same segment is used instead;
* `resync` — has a node take its inherited level from its parent again;
* `getOrCreate` — follows a name, making what is missing;
* `getIfExists` — follows a name without making anything.
-/

/-- The event of a new context. -/
def initialized (root : Node) : Event :=
  ⟨.debug, "Log context initialized",
    [("root_level", .text (Level.describeOption root.level)),
      ("root_min_level", .number root.minimum.toInt)]⟩

/-- The event of a new node. -/
def createdNode (name : String) : Event :=
  ⟨.trace, "Created logger node", [("name", .text name)]⟩

/-- The event of a node that was made first by somebody else. -/
def lostRace (name : String) : Event :=
  ⟨.trace, "Lost node creation race, using existing node", [("name", .text name)]⟩

/-- The root that answers of the configuration lead to. -/
def rootNode (minimum level : Option Level) : Node :=
  let minimum := (minimum.getD defaultRootLevel).value
  let level := level.getD defaultRootLevel
  { parent? := none, segment := "", name := "", minimum, level := some level,
    effective := max minimum level.value }

/-- Makes the root. -/
def plant : Run NodeId := do
  let minimum ← askMinimum ""
  let level ← askLevel ""
  let node := rootNode minimum level
  modify fun t => { t with nodes := #[node] }
  Program.announce (initialized node)
  return root

/-- The full name of the child that `segment` leads to from `n`. -/
def childName (t : Tree) (n : NodeId) (segment : String) : String :=
  Name.child (t.isRoot n) (t.name n) segment

/-- The child of `n` that answers of the configuration lead to: without a floor of its own it has
    its parent's, without a level of its own it inherits its parent's effective level. -/
def childNode (t : Tree) (n : NodeId) (segment : String) (minimum level : Option Level) : Node :=
  let floor := (minimum.map (·.value)).getD (t.minimum n)
  let severity := (level.map (·.value)).getD (t.effective n)
  { parent? := some n, segment, name := t.childName n segment, minimum := floor, level,
    effective := max floor severity }

/-- Puts a new node into the tree. -/
def insert (t : Tree) (node : Node) : Tree :=
  { t with nodes := t.nodes.push node, created := t.created + 1 }

/-- Has a node that inherits its level take it from its parent again. -/
def resync (t : Tree) (n : NodeId) : Tree :=
  match t.node? n, t.parent? n with
  | some node, some p =>
    if node.level.isNone then t.handDown n (max node.minimum (t.effective p)) else t
  | _, _ => t

/-- Makes the child of `n` that `segment` leads to. -/
def createChild (n : NodeId) (segment : String) : Run NodeId := do
  let name := (← get).childName n segment
  let minimum ← askMinimum name
  let level ← askLevel name
  -- the code that was asked may have made this very child
  let t ← get
  match t.child? n segment with
  | some winner =>
    Program.announce (lostRace name)
    return winner
  | none =>
    set (t.insert (t.childNode n segment minimum level))
    Program.announce (createdNode name)
    -- in case the parent's level has changed since the new node read it
    modify (·.resync t.nodes.size)
    return t.nodes.size

/-- Follows a path from `n`, making the children that are missing.  The nodes on the way are kept
    until its end is reached. -/
def followOrCreate (n : NodeId) : List String → Run NodeId
  | [] => pure n
  | segment :: rest =>
    pinned n do
      let next ←
        match (← get).child? n segment with
        | some c => pure c
        | none => createChild n segment
      followOrCreate next rest

/-- The node that a name leads to from `n`, made if it is missing. -/
def getOrCreate (n : NodeId) (name : String) : Run NodeId :=
  followOrCreate n (Name.segments name)

/-- The node that a name leads to from `n`, if it exists. -/
def getIfExists (t : Tree) (n : NodeId) (name : String) : Option NodeId :=
  t.find? n (Name.segments name)

end LoggerHierarchy.Tree
