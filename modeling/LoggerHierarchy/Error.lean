namespace LoggerHierarchy

/-!
# Refusals and failures

* `Error` — why a call on the library was refused, with its wording `Error.message`;
* `HandlerFailure` — what a handler can report about a record it did not take;
* `FailureCategory` — the kind of work during which a handler failed.
-/

/-- Why a call was refused. -/
inductive Error where
  /-- An argument that stands for nothing, with what is wrong about it. -/
  | invalidArgument (detail : String)
  /-- A new attachment where every slot holds another key. -/
  | capacityExceeded (capacity : Nat)
  deriving DecidableEq, Repr

/-- The wording of a refusal. -/
def Error.message : Error → String
  | .invalidArgument detail => "Invalid argument: " ++ detail
  | .capacityExceeded capacity =>
    "Maximum number of attachments exceeded (capacity " ++ toString capacity ++ ")"

/-- A failure that a handler returns for a record. -/
inductive HandlerFailure where
  | publication (detail : String)
  | inputOutput (detail : String)
  deriving DecidableEq, Repr

/-- The wording of a failure; one of input and output speaks for itself. -/
def HandlerFailure.message : HandlerFailure → String
  | .publication detail => "Handler publication failed: " ++ detail
  | .inputOutput detail => detail

/-- The kind of work during which a handler failed. -/
inductive FailureCategory where
  | generic
  | writing
  | flushing
  | closing
  | opening
  | formatting
  deriving DecidableEq, Repr

namespace FailureCategory

def all : List FailureCategory := [.generic, .writing, .flushing, .closing, .opening, .formatting]

/-- The label under which failures of the category are counted. -/
def label : FailureCategory → String
  | .generic => "generic"
  | .writing => "write_failure"
  | .flushing => "flush_failure"
  | .closing => "close_failure"
  | .opening => "open_failure"
  | .formatting => "format_failure"

/-- The name of the category. -/
def title : FailureCategory → String
  | .generic => "Generic"
  | .writing => "WriteFailure"
  | .flushing => "FlushFailure"
  | .closing => "CloseFailure"
  | .opening => "OpenFailure"
  | .formatting => "FormatFailure"

/-- The category of a name. -/
def ofTitle? (title : String) : Option FailureCategory :=
  all.find? (·.title = title)

/-- Every category is found by its name. -/
@[simp] theorem ofTitle?_title (c : FailureCategory) : ofTitle? c.title = some c := by
  cases c <;> decide

end FailureCategory

end LoggerHierarchy
