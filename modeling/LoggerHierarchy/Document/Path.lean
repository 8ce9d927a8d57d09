import LoggerHierarchy.Decimal.Integer
import LoggerHierarchy.Document.Basic
import LoggerHierarchy.Text.Reader

namespace LoggerHierarchy.Document

/-!
# Paths into a document

A path names a place inside nested tables and arrays, as in `root.level` or `loggers[0].name`:

* `Step` — a key of a table or an index of an array;
* `Path.parse?` — the path that a key of a source spells, if it spells one.
-/

/-- One step into a document. -/
inductive Step where
  | key (k : String)
  /-- A place of an array, counted from its end if negative. -/
  | index (i : Int)
  deriving DecidableEq, Repr

namespace Path

open LoggerHierarchy.Text LoggerHierarchy.Text.Reader

/-- The characters of a key in a path. -/
def isKeyChar (c : Char) : Bool :=
  c.isAlphanum || c == ' ' || c == '_' || c == '-'

/-- A key of a path. -/
def key : Reader Step := do
  return .key (String.ofList (← span1 isKeyChar))

/-- The characters that may stand around an index. -/
def isBlank (c : Char) : Bool :=
  c == ' ' || c == '\t'

/-- An index after its opening bracket; blanks around the number do not matter. -/
def index : Reader Step := do
  let text ← span (· ≠ ']')
  expect ']'
  let trimmed := ((text.dropWhile isBlank).reverse.dropWhile isBlank).reverse
  match trimmed with
  | '+' :: _ => refuse
  | _ =>
    match Decimal.readInt64 trimmed with
    | some i => return .index i
    | none => refuse

/-- The steps after the first key; each takes at least one character. -/
def more : Nat → List Step → Reader (List Step)
  | 0, _ => refuse
  | fuel + 1, reversed => do
    if ← atEnd then return reversed.reverse
    else if ← skipChar '.' then more fuel ((← key) :: reversed)
    else
      expect '['
      more fuel ((← index) :: reversed)

/-- A key, then keys after dots and indices in brackets. -/
def steps : Reader (List Step) := do
  let first ← key
  more ((← remaining) + 1) [first]

/-- The path that a text spells. -/
def parse? (s : String) : Option (List Step) :=
  readAll steps s

end Path

end LoggerHierarchy.Document
