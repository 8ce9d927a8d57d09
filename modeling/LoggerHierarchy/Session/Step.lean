import LoggerHierarchy.Session.Answers
import LoggerHierarchy.Tree.Loggers
import LoggerHierarchy.Tree.Publication
import LoggerHierarchy.Tree.Pruning
import LoggerHierarchy.Tree.Settings

namespace LoggerHierarchy.Session

/-!
# The steps of a session

* `Act` — a part of a step, which may end the step early with its reply;
* `resolve` — finds the node or logger that a command is for, making what is missing;
* `obey` — carries out a command;
* `Step.perform` — carries out a step.
-/

/-- A part of a step. -/
abbrev Act (α : Type) := ExceptT Reply (StateM State) α

namespace Act

/-- Ends the step. -/
def stop {α : Type} (reply : Reply) : Act α := throw reply

/-- What is there, or the end of the step. -/
def need {α : Type} (found : Option α) (otherwise : Reply) : Act α :=
  match found with
  | some a => pure a
  | none => stop otherwise

/-- What a call gives, or the end of the step with its refusal. -/
def accepted {α : Type} (result : Except Error α) : Act α :=
  match result with
  | .ok a => pure a
  | .error e => stop (.refused e)

/-- A change of the tree that asks nobody. -/
def change {α : Type} (f : Tree → α × Tree) : Act α :=
  modifyGet fun s => let (a, tree) := f s.tree; (a, { s with tree })

/-- A change of the tree that asks nobody and says nothing. -/
def alter (f : Tree → Tree) : Act Unit :=
  modify fun s => { s with tree := f s.tree }

/-- Something about the tree. -/
def look {α : Type} (f : Tree → α) : Act α := do
  return f (← get).tree

/-- The act, with a reference to a node from its start to its end. -/
def holding {α : Type} (n : NodeId) (act : Act α) : Act α := do
  alter (·.hold n)
  try act finally alter (·.release n)

/-- The act, with references to some nodes. -/
def holdingAll {α : Type} (nodes : List NodeId) (act : Act α) : Act α :=
  nodes.foldr holding act

end Act

open Act

variable (setup : Setup) (scripts : Scripts)

/-- Runs an operation of the tree; a panic ends the step. -/
def operate {α : Type} (run : Tree.Run α) : Act α := fun s =>
  match converse (answer setup scripts) (run s.tree) s with
  | (some a, s) => (.ok a, s)
  | (none, s) => (.error .panicked, s)

/-- Asks a question of the tree's in its place. -/
def inquire {α : Type} (consult : State → α × State) : Act α :=
  modifyGet consult

/-- Goes on only while there is a context. -/
def needContext : Act Unit := do
  unless ← look (·.isOpen) do stop .noContext

/-- The act on the context, which keeps the root until the act ends, even if the context is given up
    meanwhile. -/
def withContext {α : Type} (act : Act α) : Act α := do
  needContext
  holding Tree.root act

/-! ### Targets -/

/-- Where the way to a target begins. -/
def resolveBase : Base → Act Handle
  -- only a target that is held already needs no context
  | .node name => do
    needContext
    return .node (← operate setup scripts (Tree.getOrCreate Tree.root name))
  | .existingNode name => do
    needContext
    return .node (← need (← look (·.getIfExists Tree.root name)) .missing)
  | .logger name => do
    needContext
    return .logger (← operate setup scripts (Tree.logger name))
  | .existingLogger name => do
    needContext
    return .logger (← need (← operate setup scripts (Tree.loggerIfExists name)) .missing)
  | .rootLogger => do
    needContext
    return .logger (← operate setup scripts Tree.rootLogger)
  | .held name => do
    need ((← get).held.lookup name) (.badRequest "held")

/-- One way on from a node. -/
def resolveOnward (n : NodeId) : Onward → Act Handle
  | .node name => return .node (← operate setup scripts (Tree.getOrCreate n name))
  | .existingNode name => return .node (← need (← look (·.getIfExists n name)) .missing)

/-- The ways on, in order. -/
def resolveAll (handle : Handle) (onward : List Onward) : Act Handle :=
  onward.foldlM (fun handle way => resolveOnward setup scripts handle.id way) handle

/-- A number of parents up; the parent of a logger is a logger. -/
def climb (handle : Handle) : Nat → Act Handle
  | 0 => return handle
  | up + 1 => do
    match handle with
    | .node n => climb (.node (← need (← look (·.parent? n)) .missing)) up
    | .logger n =>
      climb (.logger (← need (← operate setup scripts (Tree.parentLogger n)) .missing)) up

/-- The node or logger that a target means. -/
def resolve (target : Target) : Act Handle := do
  let base ← resolveBase setup scripts target.base
  climb setup scripts (← resolveAll setup scripts base target.onward) target.up

/-! ### Commands -/

def needHandler (label : String) : Act Handler :=
  need (setup.handler? label) (.badRequest "handler")

def needHandlers (labels : List String) : Act (List Handler) :=
  labels.mapM (needHandler setup)

def needKey (label : String) : Act (Attachments.Key PayloadKind) :=
  need (setup.key? label) (.badRequest "key")

/-- The settings of a node. -/
def settingsOf (n : NodeId) : Act Node := do
  need (← look (·.node? n)) .missing

/-- What there is to say about a node. -/
def infoOf (n : NodeId) : Act NodeInfo := do
  let node ← settingsOf n
  let tree ← look id
  return {
    name := node.name
    isRoot := node.parent?.isNone
    parent := (tree.parent? n).map tree.name
    level := node.level
    effective := node.effective
    minimum := node.minimum
    hasLogger := node.hasLogger
    hasFilter := node.filter.isSome
    useParentFilters := node.useParentFilters
    useParentHandlers := node.useParentHandlers }

/-- A node, or a logger, with what it is made of. -/
def describe (handle : Handle) : Act String := do
  let node ← settingsOf handle.id
  match handle with
  | .node _ =>
    return "LoggerNode \x7b full_name: " ++ Text.quote node.name ++ ", level: " ++
      Level.describeOption node.level ++ ", effective_level: " ++ toString node.effective.toInt ++
      ", effective_min_level: " ++ toString node.minimum.toInt ++ " \x7d"
  | .logger _ => return "Logger \x7b name: " ++ Text.quote node.name ++ " \x7d"

/-- Texts in alphabetical order. -/
def sorted (texts : List String) : List String :=
  texts.mergeSort fun a b => decide (a ≤ b)

/-- The names of a snapshot's handlers, which is kept under a name, if one is given. -/
def labelsOf (save : Option String) (snapshot : Tree.NodeSnapshot) : Act Reply := do
  modify (·.save save snapshot)
  return .texts (snapshot.snapshot.items.map (·.name))

/-- An attachment under a key, by one of the two ways to attach. -/
def attachBy
    (way : Tree → NodeId → (key : Attachments.Key PayloadKind) → key.kind.Value →
      Except Error (Option key.kind.Value) × Tree)
    (n : NodeId) (label : String) (value : Payload) : Act Reply := do
  let key ← needKey setup label
  let value ← need (value.as? key.kind) (.badRequest "value")
  let result ← change (way · n key value)
  return .payload ((← accepted result).map Payload.of)

/-- Carries out a command. -/
def obey (handle : Handle) : Command → Act Reply
  | .name => return .text (← settingsOf handle.id).name
  | .info => return .info (← infoOf handle.id)
  | .describe => return .text (← describe handle)
  | .hold name => do
    let inUse := ((← get).held.lookup name).isSome
    modify (·.hold name handle)
    return .flag inUse
  | .children => do
    let tree ← look id
    return .texts (sorted ((tree.children handle.id).map tree.name))
  | .setLevel term => do
    let level ← term.mapM (accepted ·.level)
    operate setup scripts (Tree.setLevel handle.id level)
    return .done
  | .level => return .level (← settingsOf handle.id).level
  | .effective => do
    let effective := (← settingsOf handle.id).effective
    match handle with
    | .node _ => return .severity effective
    | .logger _ => return .level (some (.ofValue effective))
  | .loggable terms => do
    let levels ← terms.mapM (accepted ·.level)
    let tree ← look id
    return .flags (levels.map fun level => tree.isLoggable handle.id level.value)
  | .setFilter label => do
    let filter ← label.mapM fun label => need (setup.filter? label) (.badRequest "filter")
    alter (·.setFilter handle.id filter)
    return .done
  | .filter => return .optionalText ((← settingsOf handle.id).filter.bind setup.filterLabel?)
  | .setUseParentFilters on => do
    alter (·.setUseParentFilters handle.id on)
    return .done
  | .useParentFilters => return .flag (← settingsOf handle.id).useParentFilters
  | .setUseParentHandlers on => do
    alter (·.setUseParentHandlers handle.id on)
    return .done
  | .useParentHandlers => return .flag (← settingsOf handle.id).useParentHandlers
  | .handlers save => do labelsOf save (← operate setup scripts (Tree.handlers handle.id))
  | .add label => do
    let handler ← needHandler setup label
    operate setup scripts (Tree.addHandler handle.id handler)
    return .done
  | .remove label => do
    let handler ← needHandler setup label
    operate setup scripts (Tree.removeHandler handle.id handler)
    return .done
  | .set labels save => do
    let handlers ← needHandlers setup labels
    labelsOf save (← change (·.setHandlers handle.id handlers))
  | .clear save => do labelsOf save (← change (·.clearHandlers handle.id))
  | .compareAndSet expected labels => do
    let snapshot ← need ((← get).snapshots.lookup expected) (.badRequest "expected")
    let handlers ← needHandlers setup labels
    return .flag (← change (·.compareAndSetHandlers handle.id snapshot handlers))
  | .accepts term => do
    let record ← accepted term.record
    return .flag (← operate setup scripts (Tree.accepts handle.id record))
  | .publish term => do
    let record ← accepted term.record
    operate setup scripts (Tree.publish handle.id record)
    return .done
  -- records go by way of a logger, which is made even if the record is refused
  | .log term => do
    alter (·.createLogger handle.id)
    let record ← accepted term.record
    return .flag (← operate setup scripts (Tree.log handle.id record))
  | .logMessage term message => do
    alter (·.createLogger handle.id)
    let level ← accepted term.level
    return .flag (← operate setup scripts (Tree.log handle.id { level, message }))
  | .attach key value => attachBy setup Tree.attach handle.id key value
  | .attachIfAbsent key value => attachBy setup Tree.attachIfAbsent handle.id key value
  | .detach label => do
    let key ← needKey setup label
    return .payload ((← change (·.detachValue handle.id key)).map Payload.of)
  | .attachment label => do
    let key ← needKey setup label
    return .payload ((← look (·.attachment? handle.id key)).map Payload.of)
  | .invalid fault => stop (.badRequest fault)

/-! ### Steps -/

/-- One node of a dump. -/
def dumpNode (withHandlers : Bool) (n : NodeId) : Act (NodeInfo × Option (List String)) := do
  let info ← infoOf n
  if withHandlers then
    let snapshot ← operate setup scripts (Tree.handlers n)
    return (info, some (snapshot.snapshot.items.map (·.name)))
  else return (info, none)

/-- The nodes of a tree in the order of their names. -/
def byName (tree : Tree) : List NodeId :=
  tree.members.mergeSort fun a b => decide (tree.name a ≤ tree.name b)

/-- The act of a step. -/
def act : Step → Act Reply
  | .on target command => do
    let handle ← resolve setup scripts target
    holding handle.id (obey setup scripts handle command)
  | .loggerNames => withContext do
    return .texts (sorted (← look (·.loggerNames)))
  | .prune => withContext do
    return .count (← operate setup scripts Tree.prune)
  | .drop name => do
    let inUse := ((← get).held.lookup name).isSome
    modify (·.drop name)
    return .flag inUse
  | .dropContext => do
    let wasOpen ← look (·.isOpen)
    alter (·.close)
    return .flag wasOpen
  | .dump withHandlers => withContext do
    let nodes ← look byName
    -- the fetch of a list may run a script, which must not drop a node before its turn
    holdingAll nodes do
      return .infos (← nodes.mapM (dumpNode setup scripts withHandlers))
  | .configured name => withContext do
    let level ← inquire (consultLevel setup scripts name)
    let minimum ← inquire (consultMinimum setup scripts name)
    let handlers ← inquire (consultHandlers setup scripts name)
    return .configured level minimum (handlers.map (·.name))
  | .same a b => do
    let first ← resolve setup scripts a
    holding first.id do
      let second ← resolve setup scripts b
      return .flag (first.id = second.id)
  | .invalid fault => stop (.badRequest fault)

/-- Carries out a step: its reply and the state after it. -/
def Step.perform (step : Step) (s : State) : Reply × State :=
  match act setup scripts step s with
  | (.ok reply, s) => (reply, s)
  | (.error reply, s) => (reply, s)

end LoggerHierarchy.Session
