import LoggerHierarchy.Session.State

namespace LoggerHierarchy.Session

/-!
# How scripted collaborators answer

* `converse` — a dialogue with the tree, each of whose questions is answered from the session;
* `Scripts` — a way to run the scripts of collaborators;
* `answer` — the answer to a question: the call is written down, the script is run, and then the
  collaborator says what it is set up to say.
-/

/-- Runs a dialogue, with a way to answer its questions.  The result is none if it was aborted. -/
def converse {α : Type} (answer : (q : Tree.Question) → State → q.Answer × State) :
    Dialogue Tree.outside Tree α → State → Option α × State
  | .done tree a, s => (some a, { s with tree })
  | .aborted tree, s => (none, { s with tree })
  | .announce event next, s => converse answer next (s.announce event)
  | .ask tree q resume, s =>
    let (a, s) := answer q { s with tree }
    converse answer (resume s.tree a) s

/-- A way to run the script of a collaborator. -/
abbrev Scripts := Owner → Script → State → State

variable (setup : Setup) (scripts : Scripts)

/-- A call of the configuration: what a table answers comes after its hook. -/
def consult {α : Type} (call : Call) (fromConfigurator : Configurator → α × List Event)
    (fromEntry : ConfiguredEntry → α) (s : State) : α × State :=
  match setup.configuration with
  | .configurator c =>
    let (a, events) := fromConfigurator c
    (a, s.announceAll events)
  | .table entries hooks =>
    let s := s.writeCall call
    let s :=
      match hooks.lookup call with
      | some script => scripts (.call call) script s
      | none => s
    (fromEntry ((entries.lookup call.name).getD {}), s)

def consultLevel (name : String) : State → Option Level × State :=
  consult setup scripts ⟨.level, name⟩ (fun c => (c.level name, [])) (·.level)

def consultMinimum (name : String) : State → Option Level × State :=
  consult setup scripts ⟨.minimum, name⟩ (fun c => (c.minimum name, [])) (·.minimum)

def consultHandlers (name : String) : State → List Handler × State :=
  consult setup scripts ⟨.handlers, name⟩ (fun c => (c.handlers name, c.handlerEvents name))
    (·.handlers)

/-- A filter is asked. -/
def consultFilter (filter : Filter) (record : Record) (s : State) : Verdict × State :=
  match setup.filters[filter.serial]? with
  | none => (.accept, s)
  | some (label, spec) =>
    let s := s.write (.filtered label record.loggerName)
    (spec.rule.verdict record, scripts (.filter label) spec.script s)

/-- A handler gets a record. -/
def callHandler (handler : Handler) (record : Record) (s : State) : Delivery × State :=
  let s := s.write (.published handler.name record)
  match setup.handlers[handler.serial]? with
  | none => (.taken, s)
  | some (label, spec) => (spec.delivery, scripts (.handler label) spec.script s)

/-- The reporter is told about a failed handler. -/
def callReporter (handler : Handler) (message : String) (failure : HandlerFailure)
    (category : FailureCategory) (s : State) : Acknowledgement × State :=
  let entry := LogEntry.reported handler.name message failure.message category.label
  match setup.reporter with
  | .announcing =>
    (.returned,
      { s with reporter := s.reporter.report category }.announce
        (Reporter.reported handler.name message failure category))
  | .recording => (.returned, s.write entry)
  | .panicking => (.panic, s.write entry)

/-- The answer to a question of the tree. -/
def answer : (q : Tree.Question) → State → q.Answer × State
  | .minimum name => consultMinimum setup scripts name
  | .level name => consultLevel setup scripts name
  | .handlers name => consultHandlers setup scripts name
  | .handlersForRemoval name => consultHandlers setup scripts name
  | .accepts filter record => consultFilter setup scripts filter record
  | .publish handler record => callHandler setup scripts handler record
  | .report handler message failure category => callReporter setup handler message failure category

end LoggerHierarchy.Session
