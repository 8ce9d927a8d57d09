import LoggerHierarchy.Reporter
import LoggerHierarchy.Session.Language
import LoggerHierarchy.Tree.Handlers

namespace LoggerHierarchy.Session

/-!
# The state of a session

* `Handle` — a node or a logger in the hands of a session;
* `NodeInfo`, `Reply` — what a step answers;
* `LogEntry` — what collaborators write down when they are called;
* `State` — the tree, what is held and saved, and all that was written down.
-/

/-- A node or a logger in the hands of a session. -/
inductive Handle where
  | node (n : NodeId)
  | logger (n : NodeId)
  deriving DecidableEq, Repr

/-- The node that a handle is for. -/
def Handle.id : Handle → NodeId
  | node n | logger n => n

/-- What there is to say about a node. -/
structure NodeInfo where
  name : String
  isRoot : Bool
  parent : Option String
  level : Option Level
  effective : Int32
  minimum : Int32
  hasLogger : Bool
  hasFilter : Bool
  useParentFilters : Bool
  useParentHandlers : Bool
  deriving DecidableEq, Repr

/-- What a step answers. -/
inductive Reply where
  | done
  | flag (b : Bool)
  | flags (bs : List Bool)
  | count (n : Nat)
  | text (s : String)
  | optionalText (s : Option String)
  | texts (ss : List String)
  | level (level : Option Level)
  | severity (value : Int32)
  | payload (value : Option Payload)
  | info (info : NodeInfo)
  | infos (infos : List (NodeInfo × Option (List String)))
  | configured (level minimum : Option Level) (handlers : List String)
  /-- The target of a command does not exist. -/
  | missing
  | refused (error : Error)
  /-- A panic that nothing stopped. -/
  | panicked
  /-- The context is gone. -/
  | noContext
  /-- The step makes no sense, with what is wrong about it. -/
  | badRequest (fault : String)
  deriving DecidableEq, Repr

/-- What a collaborator writes down. -/
inductive LogEntry where
  | published (handler : String) (record : Record)
  | filtered (filter : String) (loggerName : String)
  | reported (handler message failure category : String)
  /-- The answer to a step of a script, with whose script it is. -/
  | nested (owner : String) (reply : Reply)
  deriving DecidableEq, Repr

/-- Whose script it is. -/
inductive Owner where
  | handler (label : String)
  | filter (label : String)
  | call (call : Call)
  deriving DecidableEq, Repr

def Owner.text : Owner → String
  | handler label | filter label => label
  | call c => c.text

/-- What was written down since a step began. -/
structure Notes where
  log : Array LogEntry := #[]
  calls : Array Call := #[]
  events : Array Event := #[]

/-- The state of a session. -/
structure State where
  tree : Tree := {}
  held : List (String × Handle) := []
  snapshots : List (String × Tree.NodeSnapshot) := []
  /-- The script runs so far. -/
  runs : List Owner := []
  reporter : Reporter := {}
  notes : Notes := {}

namespace State

def write (s : State) (entry : LogEntry) : State :=
  { s with notes := { s.notes with log := s.notes.log.push entry } }

def writeCall (s : State) (call : Call) : State :=
  { s with notes := { s.notes with calls := s.notes.calls.push call } }

def announce (s : State) (event : Event) : State :=
  { s with notes := { s.notes with events := s.notes.events.push event } }

def announceAll (s : State) (events : List Event) : State :=
  events.foldl announce s

/-- Keeps a snapshot under a name, if there is one. -/
def save (s : State) (name : Option String) (snapshot : Tree.NodeSnapshot) : State :=
  match name with
  | some name => { s with snapshots := (name, snapshot) :: s.snapshots }
  | none => s

/-- Holds something under a name, in place of what was held there. -/
def hold (s : State) (name : String) (handle : Handle) : State :=
  let tree := s.tree.hold handle.id
  let tree :=
    match s.held.lookup name with
    | some old => tree.release old.id
    | none => tree
  { s with tree, held := (name, handle) :: s.held.filter (·.1 ≠ name) }

/-- Lets go of what is held under a name. -/
def drop (s : State) (name : String) : State :=
  match s.held.lookup name with
  | some old => { s with tree := s.tree.release old.id, held := s.held.filter (·.1 ≠ name) }
  | none => s

end State

end LoggerHierarchy.Session
