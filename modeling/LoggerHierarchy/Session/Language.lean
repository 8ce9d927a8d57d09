import LoggerHierarchy.Level.Parse
import LoggerHierarchy.Settings.Configurator
import LoggerHierarchy.Tree.Outside

namespace LoggerHierarchy.Session

/-!
# Sessions

A session sets up a context with scripted collaborators and runs steps against it.

* `LevelTerm`, `RecordTerm`, `Payload` — values as a session writes them;
* `Target` — which node, or which logger, a command is for;
* `Command`, `Step` — what a session does;
* `HandlerSpec`, `FilterSpec`, `ConfigurationSpec`, `ReporterSpec` — the collaborators; a `Script`
  runs steps when a collaborator is called;
* `Setup` — all that a session starts from.
-/

/-! ### Values -/

/-- A level as it is written in a session. -/
inductive LevelTerm where
  | text (s : String)
  | severity (value : Int32)
  | custom (name : String) (value : Int32)
  deriving DecidableEq, Repr

/-- The level that a term stands for. -/
def LevelTerm.level : LevelTerm → Except Error Level
  | text s => Level.parse s
  | severity value => .ok (.ofValue value)
  | custom name value => .ok ⟨name, value⟩

/-- A record as it is written in a session. -/
structure RecordTerm where
  level : LevelTerm := .text "INFO"
  message : String
  loggerName : String := ""
  fields : List (String × String) := []
  deriving DecidableEq, Repr

/-- The record that a term stands for. -/
def RecordTerm.record (r : RecordTerm) : Except Error Record := do
  return ⟨← r.level.level, r.loggerName, r.message, r.fields⟩

/-- A value for an attachment. -/
inductive Payload where
  | text (s : String)
  | number (n : Int64)
  deriving DecidableEq, Repr

/-- The value as one of a type, if it is of that type. -/
def Payload.as? : Payload → (kind : PayloadKind) → Option kind.Value
  | text s, .text => some s
  | number n, .number => some n
  | _, _ => none

/-- A value of some type. -/
def Payload.of : {kind : PayloadKind} → kind.Value → Payload
  | .text, s => .text s
  | .number, n => .number n

/-! ### Steps -/

/-- Where the way to a target begins. -/
inductive Base where
  /-- The node of a name, made if missing. -/
  | node (name : String)
  /-- The node of a name, if it exists. -/
  | existingNode (name : String)
  /-- The logger of a name, made if missing. -/
  | logger (name : String)
  /-- The logger of a name, if its node exists. -/
  | existingLogger (name : String)
  | rootLogger
  /-- What a session holds under a name. -/
  | held (name : String)
  deriving DecidableEq, Repr

/-- A way on from a node by a name. -/
inductive Onward where
  | node (name : String)
  | existingNode (name : String)
  deriving DecidableEq, Repr

/-- A node or a logger: a base, ways on from there, one after the other, then a number of parents
    up. -/
structure Target where
  base : Base
  onward : List Onward := []
  up : Nat := 0
  deriving DecidableEq, Repr

/-- What is done with a node or a logger. -/
inductive Command where
  | name
  | info
  | describe
  | hold (as : String)
  | children
  | setLevel (level : Option LevelTerm)
  | level
  | effective
  | loggable (levels : List LevelTerm)
  | setFilter (label : Option String)
  | filter
  | setUseParentFilters (on : Bool)
  | useParentFilters
  | setUseParentHandlers (on : Bool)
  | useParentHandlers
  | handlers (save : Option String)
  | add (handler : String)
  | remove (handler : String)
  | set (handlers : List String) (save : Option String)
  | clear (save : Option String)
  | compareAndSet (expected : String) (handlers : List String)
  | accepts (record : RecordTerm)
  | publish (record : RecordTerm)
  | log (record : RecordTerm)
  | logMessage (level : LevelTerm) (message : String)
  | attach (key : String) (value : Payload)
  | attachIfAbsent (key : String) (value : Payload)
  | detach (key : String)
  | attachment (key : String)
  /-- A command that is none, with what is wrong about it. -/
  | invalid (fault : String)
  deriving DecidableEq, Repr

/-- One step of a session. -/
inductive Step where
  | on (target : Target) (command : Command)
  | loggerNames
  | prune
  /-- Lets go of what is held under a name. -/
  | drop (name : String)
  | dropContext
  /-- All nodes, maybe with their handlers. -/
  | dump (withHandlers : Bool)
  /-- What is configured for a name. -/
  | configured (name : String)
  | same (a b : Target)
  /-- A step that is none, with what is wrong about it. -/
  | invalid (fault : String)
  deriving DecidableEq, Repr

/-! ### Collaborators -/

/-- Steps that are run when a collaborator is called, up to a number of times. -/
structure Script where
  steps : List Step := []
  times : Nat := 1
  deriving DecidableEq, Repr

/-- How a handler's turn ends. -/
structure HandlerSpec where
  delivery : Delivery := .taken
  script : Script := {}
  deriving DecidableEq, Repr

/-- Which records a filter accepts. -/
inductive FilterRule where
  | all
  | none
  | panic
  | atLeast (level : Level)
  | messageContains (text : String)
  | hasField (key : String)
  | fieldIs (key value : String)
  | loggerIs (name : String)
  deriving DecidableEq, Repr

structure FilterSpec where
  rule : FilterRule := .all
  script : Script := {}
  deriving DecidableEq, Repr

/-- Whether `part` occurs in `whole`. -/
def occursIn (part : List Char) : List Char → Bool
  | [] => part.isEmpty
  | c :: rest => part.isPrefixOf (c :: rest) || occursIn part rest

/-- What a filter says to a record. -/
def FilterRule.verdict (rule : FilterRule) (record : Record) : Verdict :=
  let accept (b : Bool) : Verdict := if b then .accept else .reject
  match rule with
  | .all => .accept
  | .none => .reject
  | .panic => .panic
  | .atLeast level => accept (level ≤ record.level)
  | .messageContains text => accept (occursIn text.toList record.message.toList)
  | .hasField key => accept (record.field? key).isSome
  | .fieldIs key value => accept (record.field? key = some value)
  | .loggerIs name => accept (record.loggerName = name)

/-- What a configuration can be asked about a name. -/
inductive Topic where
  | level
  | minimum
  | handlers
  deriving DecidableEq, Repr

def Topic.label : Topic → String
  | level => "level"
  | minimum => "min"
  | handlers => "handlers"

/-- A call of the configuration. -/
structure Call where
  topic : Topic
  name : String
  deriving DecidableEq, Repr

def Call.text (c : Call) : String :=
  c.topic.label ++ ":" ++ c.name

/-- What a table of configured names says about one. -/
structure ConfiguredEntry where
  level : Option Level := none
  minimum : Option Level := none
  handlers : List Handler := []
  deriving DecidableEq, Repr

/-- Where a context's configuration comes from. -/
inductive ConfigurationSpec where
  | configurator (c : Configurator)
  /-- A table of names, with the scripts that are run when it is called. -/
  | table (entries : List (String × ConfiguredEntry)) (hooks : List (Call × Script))

/-- What is done about failed handlers. -/
inductive ReporterSpec where
  /-- Failures are announced and counted. -/
  | announcing
  | recording
  | panicking
  deriving DecidableEq, Repr

/-- All that a session starts from. -/
structure Setup where
  configuration : ConfigurationSpec := .configurator {}
  handlers : List (String × HandlerSpec) := []
  filters : List (String × FilterSpec) := []
  keys : List (String × PayloadKind) := []
  reporter : ReporterSpec := .announcing
  /-- The names that are looked at after each step. -/
  watch : List String := []
  steps : List Step := []

namespace Setup

/-- The handler with a label. -/
def handler? (s : Setup) (label : String) : Option Handler :=
  (s.handlers.findIdx? (·.1 = label)).map fun i => ⟨i, label⟩

/-- The filter with a label. -/
def filter? (s : Setup) (label : String) : Option Filter :=
  (s.filters.findIdx? (·.1 = label)).map fun i => ⟨i⟩

/-- The label of a filter. -/
def filterLabel? (s : Setup) (filter : Filter) : Option String :=
  (s.filters[filter.serial]?).map (·.1)

/-- The key with a label. -/
def key? (s : Setup) (label : String) : Option (Attachments.Key PayloadKind) :=
  (s.keys.findIdx? (·.1 = label)).bind fun i => (s.keys[i]?).map fun (_, kind) => ⟨i, kind⟩

/-- The scripts that hang on calls of the configuration. -/
def hooks (s : Setup) : List (Call × Script) :=
  match s.configuration with
  | .configurator _ => []
  | .table _ hooks => hooks

/-- All scripts of the collaborators. -/
def scripts (s : Setup) : List Script :=
  s.handlers.map (·.2.script) ++ s.filters.map (·.2.script) ++ s.hooks.map (·.2)

/-- How many script runs there can be in all. -/
def scriptRuns (s : Setup) : Nat :=
  s.scripts.foldr (fun script runs => script.times + runs) 0

end Setup

end LoggerHierarchy.Session
