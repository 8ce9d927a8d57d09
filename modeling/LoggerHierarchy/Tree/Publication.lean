import LoggerHierarchy.Tree.Handlers
import LoggerHierarchy.Tree.Levels

namespace LoggerHierarchy.Tree

/-!
# Records on their way through a tree

* `accepts` — the filters of a node and, where it delegates, of the nodes above it;
* `publish` — the handlers of a node and, where it delegates, of the nodes above it.  What handlers
  do never stops the walk: a failure is reported, a panic is announced;
* `log` — the level check, the filters, then the handlers.
-/

/-- What the reporter is told about a failed handler. -/
def publicationFailure : String := "Handler publication threw an exception"

/-- The event of a handler, or of the reporter told about it, that panicked. -/
def handlerPanicked (logger handler : String) : Event :=
  ⟨.warn, "Handler panicked during publish, ignoring",
    [("logger", .text logger), ("handler", .text handler)]⟩

/-! ### Filters -/

/-- Whether the filter of the node itself accepts a record; without a filter it does.  A panic of
    the filter ends the operation. -/
def ownFilterAccepts (n : NodeId) (record : Record) : Run Bool := do
  match ((← get).node? n).bind (·.filter) with
  | none => return true
  | some filter =>
    match ← askFilter filter record with
    | .accept => return true
    | .reject => return false
    | .panic => Program.abort

/-- Whether the node has records pass its parent's filter too. -/
def delegatesFilters (t : Tree) (n : NodeId) : Bool :=
  (t.node? n).any (·.useParentFilters)

/-- Whether the node hands records on to its parent's handlers. -/
def delegatesHandlers (t : Tree) (n : NodeId) : Bool :=
  (t.node? n).any (·.useParentHandlers)

/-- The filters of a node that was delegated to, then those above it. -/
def acceptsFrom (n : NodeId) (record : Record) : Run Bool :=
  pinned n do
    if ← ownFilterAccepts n record then
      if (← get).delegatesFilters n then
        fun t =>
          match _h : t.parent? n with
          | some p => acceptsFrom p record t
          | none => .done t true
      else return true
    else return false
termination_by n
decreasing_by exact lt_of_parent? _h

/-- Whether the filters that apply at a node accept a record.  Whether the node delegates is read
    before its own filter is asked. -/
def accepts (n : NodeId) (record : Record) : Run Bool :=
  pinned n do
    let delegates := (← get).delegatesFilters n
    if ← ownFilterAccepts n record then
      if delegates then
        -- the parent may have gone with the context while the filter ran
        match (← get).parent? n with
        | some p => acceptsFrom p record
        | none => return true
      else return true
    else return false

/-! ### Handlers -/

/-- One handler's turn. -/
def deliver (n : NodeId) (record : Record) (handler : Handler) : Run Unit := do
  match ← askHandler handler record with
  | .taken => return
  | .panic => Program.announce (handlerPanicked ((← get).name n) handler.name)
  | .failed failure =>
    -- the reporter is from the outside too, and may panic like the handler
    match ← askReporter handler publicationFailure failure .writing with
    | .returned => return
    | .panic => Program.announce (handlerPanicked ((← get).name n) handler.name)

/-- The turns of some handlers, in order. -/
def deliverAll (n : NodeId) (record : Record) : List Handler → Run Unit
  | [] => pure ()
  | handler :: rest => do
    deliver n record handler
    deliverAll n record rest

/-- The turns of the handlers that the node has when the record arrives. -/
def publishOwn (n : NodeId) (record : Record) : Run Unit := do
  deliverAll n record (← handlers n).snapshot.items

/-- Hands a record to the node's handlers, then to those above it while nodes delegate. -/
def publish (n : NodeId) (record : Record) : Run Unit :=
  pinned n do
    publishOwn n record
    if (← get).delegatesHandlers n then
      fun t =>
        match _h : t.parent? n with
        | some p => publish p record t
        | none => .done t ()
termination_by n
decreasing_by exact lt_of_parent? _h

/-! ### Both -/

/-- Takes a record at a node: tells whether it went to the handlers.  A record without a logger's
    name gets the node's. -/
def log (n : NodeId) (record : Record) : Run Bool :=
  pinned n do
    let t ← get
    if t.isLoggable n record.level.value then
      let record := if record.loggerName.isEmpty then record.named (t.name n) else record
      if ← accepts n record then
        publish n record
        return true
      else return false
    else return false

end LoggerHierarchy.Tree
