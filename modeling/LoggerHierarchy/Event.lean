import LoggerHierarchy.Level.Basic

namespace LoggerHierarchy

/-!
# Diagnostic events

The library tells what it does by events: a verbosity, a fixed message and named fields.  Each event
of the library has one constructor function here or beside the operation that announces it.
-/

/-- How much an event matters, from the most detailed one. -/
inductive Verbosity where
  | trace
  | debug
  | info
  | warn
  | error
  deriving DecidableEq, Repr

/-- The name of a verbosity. -/
def Verbosity.label : Verbosity → String
  | .trace => "TRACE"
  | .debug => "DEBUG"
  | .info => "INFO"
  | .warn => "WARN"
  | .error => "ERROR"

/-- What a field of an event holds. -/
inductive FieldValue where
  | text (s : String)
  | number (n : Int)
  deriving DecidableEq, Repr

/-- One diagnostic event. -/
structure Event where
  verbosity : Verbosity
  message : String
  fields : List (String × FieldValue)
  deriving DecidableEq, Repr

end LoggerHierarchy
