import LoggerHierarchy.Document.Path
import LoggerHierarchy.Text.LowerCase

namespace LoggerHierarchy.Document

/-!
# Layering documents

Later sources override earlier ones key by key:

* `setKey` — a value for one key: a table is merged into the table there, any other value replaces
  what is there.  Keys are merged in lower case;
* `mergeInto` — a table merged into a value: an empty one leaves it, any other makes it a table;
* `setPath` — a value for a place that may have to be made first;
* `layer` — all entries of a source, whose keys are paths.
-/

/-- The entries of a table; any other value has none. -/
def entries : Document → List (String × Document)
  | table entries => entries
  | _ => []

/-- The items of an array; any other value has none. -/
def items : Document → List Document
  | array items => items
  | _ => []

mutual

/-- The entries with a value set for a key. -/
def setKey (target : List (String × Document)) (key : String) :
    Document → List (String × Document)
  | table incoming =>
    let key := Text.lowerCase key
    put target key (mergeInto ((field? target key).getD (table [])) incoming)
  | value => put target (Text.lowerCase key) value

/-- A value with the entries of a table merged into it. -/
def mergeInto (target : Document) : List (String × Document) → Document
  | [] => target
  | (key, value) :: rest => mergeInto (table (setKey target.entries key value)) rest

end

/-- The place of an array that an index means. -/
def place (i : Int) (size : Nat) : Nat :=
  if 0 ≤ i then i.toNat else size - i.natAbs

/-- The document with a value at the end of a path.  Tables and arrays on the way are made where
    something else stands, and arrays are filled up with nulls. -/
def setPath (target : Document) : List Step → Document → Document
  | [], value => value
  | [.key k], value => table (setKey target.entries k value)
  | .key k :: rest, value =>
    let k := Text.lowerCase k
    table (put target.entries k (setPath ((field? target.entries k).getD null) rest value))
  | .index i :: rest, value =>
    let spot := place i target.items.length
    let filled := target.items ++ List.replicate (spot + 1 - target.items.length) null
    array (filled.set spot (setPath (filled.getD spot null) rest value))

/-- A document with one entry of a source on top: its key, in lower case, is a path if it spells
    one, else a plain key. -/
def layerEntry (target : Document) (key : String) (value : Document) : Document :=
  match Path.parse? (Text.lowerCase key) with
  | some steps => setPath target steps value
  | none => table (setKey target.entries key value)

/-- A document with all entries of a source on top. -/
def layer (target : Document) (source : List (String × Document)) : Document :=
  source.foldl (fun target (key, value) => layerEntry target key value) target

end LoggerHierarchy.Document
