import LoggerHierarchy.Document.Json
import LoggerHierarchy.Event

namespace LoggerHierarchy

/-!
# Events as documents

* `Event.toDocument` — an event as a table, keys in alphabetical order;
* `Event.sortByText` — events in the order of their texts, for a group whose own order means
  nothing.
-/

def FieldValue.toDocument : FieldValue → Document
  | .text s => .text s
  | .number n => .integer n

namespace Event

/-- An event as a table, keys in alphabetical order. -/
def toDocument (e : Event) : Document :=
  .table
    [("fields", .table ((e.fields.map fun (k, v) => (k, v.toDocument)).mergeSort
        fun a b => decide (a.1 ≤ b.1))),
      ("level", .text e.verbosity.label),
      ("message", .text e.message)]

/-- The text of an event. -/
def text (e : Event) : String :=
  Document.Json.render e.toDocument

/-- Events in the order of their texts. -/
def sortByText (events : List Event) : List Event :=
  events.mergeSort fun a b => decide (a.text ≤ b.text)

end Event

end LoggerHierarchy
