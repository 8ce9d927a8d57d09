import LoggerHierarchy.HandlerList

namespace LoggerHierarchy.HandlerSession

/-!
# Sessions with one handler list

* `Origin` — how the list begins: with given items, or with a source, which may set the list itself
  while it is asked for the first time;
* `Step`, `Reply` — what is done with the list and what is answered;
* `run` — the whole session.
-/

/-- How the list begins. -/
inductive Origin where
  | given (items : List String)
  | sourced (items : List String) (setDuringFetch : Option (List String))
  deriving DecidableEq, Repr

/-- One step. -/
inductive Step where
  | add (handler : String)
  | remove (handler : String)
  | set (handlers : List String) (save : Option String)
  | clear (save : Option String)
  | get (save : Option String)
  | initialized
  | compareAndSet (expected : String) (handlers : List String)
  /-- Whether a saved snapshot is the current one. -/
  | sameSnapshot (expected : String)
  /-- The items of a saved snapshot. -/
  | saved (expected : String)
  | invalid (fault : String)
  deriving DecidableEq, Repr

/-- What a step answers. -/
inductive Reply where
  | done
  | flag (b : Bool)
  | items (items : List String)
  | badRequest (fault : String)
  deriving DecidableEq, Repr

/-- The list, what was saved, and how often the source was asked. -/
structure State where
  list : HandlerList String := .unset
  snapshots : List (String × Snapshot String) := []
  fetches : Nat := 0
  events : Array Event := #[]

/-- What the source answers.  While it is asked for the first time it may set the list. -/
def askSource (origin : Origin) (s : State) : List String × State :=
  match origin with
  | .given _ => ([], { s with fetches := s.fetches + 1 })
  | .sourced items setDuringFetch =>
    let list :=
      match setDuringFetch with
      | some other => if s.fetches = 0 then (s.list.set other).2 else s.list
      | none => s.list
    (items, { s with list, fetches := s.fetches + 1 })

/-- Runs a use of the list. -/
def converse {α : Type} (origin : Origin) :
    Dialogue (HandlerList.source String) (HandlerList String) α → State → Option α × State
  | .done list a, s => (some a, { s with list })
  | .aborted list, s => (none, { s with list })
  | .announce event next, s => converse origin next { s with events := s.events.push event }
  | .ask list _ resume, s =>
    let (items, s) := askSource origin { s with list }
    converse origin (resume s.list items) s

/-- Runs a use of the list that answers nothing. -/
def use {α : Type} (origin : Origin)
    (program : Program (HandlerList.source String) (HandlerList String) α) (s : State) :
    Option α × State :=
  converse origin (program s.list) s

/-- Keeps a snapshot under a name, if one is given, and shows it. -/
def shown (save : Option String) (snapshot : Snapshot String) (s : State) : Reply × State :=
  match save with
  | some name => (.items snapshot.items, { s with snapshots := (name, snapshot) :: s.snapshots })
  | none => (.items snapshot.items, s)

/-- What is done with a saved snapshot. -/
def withSaved (s : State) (name : String) (f : Snapshot String → Reply × State) : Reply × State :=
  match s.snapshots.lookup name with
  | some snapshot => f snapshot
  | none => (.badRequest "expected", s)

/-- Carries out a step. -/
def Step.perform (origin : Origin) (step : Step) (s : State) : Reply × State :=
  match step with
  | .add handler => (.done, (use origin (HandlerList.add handler) s).2)
  | .remove handler => (.done, (use origin (HandlerList.remove handler) s).2)
  | .set handlers save =>
    let (previous, list) := s.list.set handlers
    shown save previous { s with list }
  | .clear save =>
    let (previous, list) := s.list.clear
    shown save previous { s with list }
  | .get save =>
    match use origin HandlerList.fetch s with
    | (some snapshot, s) => shown save snapshot s
    | (none, s) => (.done, s)
  | .initialized => (.flag s.list.isInitialized, s)
  | .compareAndSet expected handlers =>
    withSaved s expected fun snapshot =>
      let (swapped, list) := s.list.compareAndSet snapshot handlers
      (.flag swapped, { s with list })
  | .sameSnapshot expected =>
    withSaved s expected fun snapshot => (.flag (s.list.isCurrent snapshot), s)
  | .saved expected => withSaved s expected fun snapshot => (.items snapshot.items, s)
  | .invalid fault => (.badRequest fault, s)

/-- What is to be seen of a step. -/
structure Sight where
  reply : Reply
  initialized : Bool
  fetches : Nat

/-- What is to be seen of a session. -/
structure Outcome where
  steps : List Sight
  final : List String
  events : List Event

/-- What is to be seen of some steps, and the state after them. -/
def runSteps (origin : Origin) : List Step → State → List Sight × State
  | [], s => ([], s)
  | step :: rest, s =>
    let (reply, s) := step.perform origin s
    let sight := ⟨reply, s.list.isInitialized, s.fetches⟩
    let (more, s) := runSteps origin rest s
    (sight :: more, s)

/-- Runs a session; at its end the list is fetched once more. -/
def run (origin : Origin) (steps : List Step) : Outcome :=
  let list : HandlerList String :=
    match origin with
    | .given items => .ofList items
    | .sourced .. => .unset
  let (sights, s) := runSteps origin steps { list }
  let (_, s) := use origin HandlerList.fetch s
  { steps := sights, final := s.list.items, events := s.events.toList }

end LoggerHierarchy.HandlerSession
