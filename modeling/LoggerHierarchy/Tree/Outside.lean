import LoggerHierarchy.Error
import LoggerHierarchy.Tree.Basic

namespace LoggerHierarchy

/-!
# What a tree asks the outside

* `Tree.Question` — the questions of a tree to its configuration, filters, handlers and reporter;
* `Tree.outside` — these questions with their answers;
* `Tree.Run` — an operation on a tree that may ask;
* `Tree.pinned` — an operation during which a node is kept.

Filters, handlers and the reporter may panic.  The configuration may not: it has an answer to every
question.
-/

/-- What a filter says to a record. -/
inductive Verdict where
  | accept
  | reject
  | panic
  deriving DecidableEq, Repr

/-- How a handler's turn ends. -/
inductive Delivery where
  | taken
  | failed (failure : HandlerFailure)
  | panic
  deriving DecidableEq, Repr

/-- How a report ends. -/
inductive Acknowledgement where
  | returned
  | panic
  deriving DecidableEq, Repr

namespace Tree

/-- A question of a tree to the outside. -/
inductive Question where
  /-- Which floor is configured for a new node? -/
  | minimum (name : String)
  /-- Which level is configured for a new node? -/
  | level (name : String)
  /-- Which handlers does a node start with? -/
  | handlers (name : String)
  /-- Would a node that were made anew start with handlers?  Asked before a node is removed. -/
  | handlersForRemoval (name : String)
  /-- Does the filter accept the record? -/
  | accepts (filter : Filter) (record : Record)
  /-- Here is a record for the handler. -/
  | publish (handler : Handler) (record : Record)
  /-- The handler has failed. -/
  | report (handler : Handler) (message : String) (failure : HandlerFailure)
      (category : FailureCategory)
  deriving DecidableEq, Repr

/-- The answers to a question. -/
def Question.Answer : Question → Type
  | minimum _ | level _ => Option Level
  | handlers _ | handlersForRemoval _ => List Handler
  | accepts .. => Verdict
  | publish .. => Delivery
  | report .. => Acknowledgement

/-- The questions of a tree with their answers. -/
abbrev outside : Protocol := ⟨Question, Question.Answer⟩

/-- An operation on a tree. -/
abbrev Run (α : Type) := Program outside Tree α

/-- The operation, with a reference to `n` from its start to its end. -/
def pinned {α : Type} (n : NodeId) (run : Run α) : Run α :=
  Program.ensuring (fun t => run (t.pin n)) (·.unpin n)

def askMinimum (name : String) : Run (Option Level) :=
  Program.ask (P := outside) (.minimum name)

def askLevel (name : String) : Run (Option Level) :=
  Program.ask (P := outside) (.level name)

def askHandlersForRemoval (name : String) : Run (List Handler) :=
  Program.ask (P := outside) (.handlersForRemoval name)

def askFilter (filter : Filter) (record : Record) : Run Verdict :=
  Program.ask (P := outside) (.accepts filter record)

def askHandler (handler : Handler) (record : Record) : Run Delivery :=
  Program.ask (P := outside) (.publish handler record)

def askReporter (handler : Handler) (message : String) (failure : HandlerFailure)
    (category : FailureCategory) : Run Acknowledgement :=
  Program.ask (P := outside) (.report handler message failure category)

end Tree

end LoggerHierarchy
