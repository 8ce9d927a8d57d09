import LoggerHierarchy.Level.Basic

namespace LoggerHierarchy

/-!
# Log records

A record travels through filters and handlers; it is built up by `named` and `withField`, and read
by `field?`, which finds the first field of a key.  The time of the event is left out: nothing that
records pass through reads it.
-/

/-- One log event: a severity, the name of the logger it came through (empty until known), a
    message and fields in the order in which they were added. -/
structure Record where
  level : Level
  loggerName : String := ""
  message : String
  fields : List (String × String) := []
  deriving DecidableEq, Repr

namespace Record

/-- The record under a logger's name. -/
def named (record : Record) (loggerName : String) : Record :=
  { record with loggerName }

/-- The record with one more field at the end; a key may occur more than once. -/
def withField (record : Record) (key value : String) : Record :=
  { record with fields := record.fields ++ [(key, value)] }

/-- The value of the first field with the key. -/
def field? (record : Record) (key : String) : Option String :=
  record.fields.lookup key

@[simp] theorem fields_withField (record : Record) (key value : String) :
    (record.withField key value).fields = record.fields ++ [(key, value)] := rfl

@[simp] theorem fields_named (record : Record) (loggerName : String) :
    (record.named loggerName).fields = record.fields := rfl

end Record

end LoggerHierarchy
