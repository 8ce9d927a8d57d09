import LoggerHierarchy.Tree.Outside

namespace LoggerHierarchy.Tree

/-!
# Levels of a tree

Every node of a tree satisfies: its effective level is the maximum of its floor and of its own level
or, where none is set, of its parent's effective level.

* `defaultRootLevel` — the level of a root that has none configured, and of a cleared one;
* `handedDown` — what a new effective level of a node makes of the nodes below it, up to those with
  a level of their own;
* `setLevel` — sets or clears the level of a node;
* `isLoggable` — whether records of a severity are taken.
-/

/-- The level of a root for which none is configured. -/
def defaultRootLevel : Level := .info

/-- The effective level that `c` takes over when `n` gets the effective level `value`; none if the
    change does not reach `c`. -/
def handedDown (t : Tree) (n : NodeId) (value : Int32) (c : NodeId) : Option Int32 :=
  if c = n then some value
  else
    match t.node? c with
    | none => none
    | some node =>
      match node.parent? with
      | none => none
      | some p =>
        if p < c then
          -- a level of its own keeps a node, and all below it, from the change
          if node.attached && node.level.isNone then
            (t.handedDown n value p).map (max node.minimum)
          else none
        else none
termination_by c

/-- Gives `n` a new effective level, and every node that inherits it from there. -/
def handDown (t : Tree) (n : NodeId) (value : Int32) : Tree :=
  { t with
    nodes := t.nodes.mapIdx fun c node =>
      match t.handedDown n value c with
      | some effective => { node with effective }
      | none => node }

/-- The level that a setting leaves at a node, and the severity it stands for: a cleared node
    inherits from its parent, and one without a parent goes back to the default. -/
def settled (t : Tree) (n : NodeId) : Option Level → Option Level × Int32
  | some level => (some level, level.value)
  | none =>
    match t.parent? n with
    | some p => (none, t.effective p)
    | none => (some defaultRootLevel, defaultRootLevel.value)

/-- The event of a changed effective level. -/
def levelChanged (name : String) (before after : Int32) : Event :=
  ⟨.debug, "Effective level changed, propagating to inheriting descendants",
    [("logger", .text name), ("old_effective", .number before.toInt),
      ("new_effective", .number after.toInt)]⟩

/-- The tree after a level was set or cleared. -/
def withLevel (t : Tree) (n : NodeId) (level : Option Level) : Tree :=
  match t.node? n with
  | none => t
  | some node =>
    let (level, severity) := t.settled n level
    let effective := max node.minimum severity
    let t := t.update n fun node => { node with level }
    -- the nodes below are leveled already if nothing changes for them
    if effective = node.effective then t
    else { t.handDown n effective with levelChanges := t.levelChanges + 1 }

/-- Sets or clears the level of a node. -/
def setLevel (n : NodeId) (level : Option Level) : Run Unit := fun t =>
  let after := t.withLevel n level
  if after.effective n = t.effective n then .done after ()
  else .announce (levelChanged (t.name n) (t.effective n) (after.effective n)) (.done after ())

/-- Whether the node takes records of a severity: nothing takes those of `OFF`. -/
def isLoggable (t : Tree) (n : NodeId) (severity : Int32) : Bool :=
  (t.node? n).any fun node =>
    decide (severity ≠ Level.off.value) && decide (node.minimum ≤ severity) &&
      decide (node.effective ≤ severity)

end LoggerHierarchy.Tree
