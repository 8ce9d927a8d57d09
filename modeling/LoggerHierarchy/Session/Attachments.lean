import LoggerHierarchy.Session.Language

namespace LoggerHierarchy.AttachmentSession

/-!
# Sessions with one row of attachments

* `Step`, `Reply` — what is done with the attachments and what is answered;
* `run` — the whole session.
-/

open Session

/-- One step. -/
inductive Step where
  | attach (key : String) (value : Payload)
  | attachIfAbsent (key : String) (value : Payload)
  | detach (key : String)
  | get (key : String)
  | invalid (fault : String)
  deriving DecidableEq, Repr

/-- What a step answers. -/
inductive Reply where
  | value (value : Option Payload)
  | refused (error : Error)
  | badRequest (fault : String)
  deriving DecidableEq, Repr

/-- The attachments of a session. -/
abbrev Row := Attachments PayloadKind.Value

/-- The key with a label: its place among all keys is its identity. -/
def key? (keys : List (String × PayloadKind)) (label : String) :
    Option (Attachments.Key PayloadKind) :=
  ({ keys } : Setup).key? label

/-- What one of the two ways to attach leads to. -/
def settle {kind : PayloadKind} (row : Row) (result : Except Error (Option kind.Value × Row)) :
    Reply × Row :=
  match result with
  | .ok (previous, row) => (.value (previous.map Payload.of), row)
  | .error e => (.refused e, row)

/-- Carries out a step with a key. -/
def withKey (keys : List (String × PayloadKind)) (label : String) (row : Row)
    (f : Attachments.Key PayloadKind → Reply × Row) : Reply × Row :=
  match key? keys label with
  | some key => f key
  | none => (.badRequest "key", row)

/-- Carries out a step with a key and a value of its type. -/
def withValue (keys : List (String × PayloadKind)) (label : String) (value : Payload) (row : Row)
    (f : (key : Attachments.Key PayloadKind) → key.kind.Value → Reply × Row) : Reply × Row :=
  withKey keys label row fun key =>
    match value.as? key.kind with
    | some value => f key value
    | none => (.badRequest "value", row)

/-- Carries out a step. -/
def Step.perform (keys : List (String × PayloadKind)) (step : Step) (row : Row) : Reply × Row :=
  match step with
  | .attach label value =>
    withValue keys label value row fun key value => settle row (row.attach key value)
  | .attachIfAbsent label value =>
    withValue keys label value row fun key value => settle row (row.attachIfAbsent key value)
  | .detach label =>
    withKey keys label row fun key =>
      let (taken, row) := row.detach key
      (.value (taken.map Payload.of), row)
  | .get label =>
    withKey keys label row fun key => (.value ((row.get? key).map Payload.of), row)
  | .invalid fault => (.badRequest fault, row)

/-- What is to be seen of a step. -/
structure Sight where
  reply : Reply
  size : Nat
  isEmpty : Bool

/-- What is to be seen of some steps. -/
def runSteps (keys : List (String × PayloadKind)) : List Step → Row → List Sight
  | [], _ => []
  | step :: rest, row =>
    let (reply, row) := step.perform keys row
    ⟨reply, row.size, row.isEmpty⟩ :: runSteps keys rest row

/-- Runs a session with a number of free slots. -/
def run (capacity : Nat) (keys : List (String × PayloadKind)) (steps : List Step) : List Sight :=
  runSteps keys steps (.empty capacity)

end LoggerHierarchy.AttachmentSession
