import LoggerHierarchy.Decimal.Integer
import LoggerHierarchy.Document.Basic
import LoggerHierarchy.Text.LowerCase
import LoggerHierarchy.Text.Reader

namespace LoggerHierarchy.Environment

/-!
# Settings from environment variables

A variable whose name begins with `LOGTREE__` sets the value at a path, in which further double
underscores stand for dots:

* `key?` — the path that a name means;
* `value` — the Boolean, the integer, the double or the text that a value means;
* `source` — the variables as a source for layering; empty values do not count.
-/

/-- What the names of variables for this library begin with, in lower case. -/
def leader : List Char := "logtree__".toList

/-- The characters with a dot for each two underscores, from the left. -/
def dotted : List Char → List Char
  | '_' :: '_' :: rest => '.' :: dotted rest
  | c :: rest => c :: dotted rest
  | [] => []

/-- The path that the name of a variable means. -/
def key? (name : String) : Option String :=
  let cs := Text.lowerChars name.toList
  if leader.isPrefixOf cs then some (String.ofList (dotted (cs.drop leader.length))) else none

/-- Digits, with a point maybe among them, and their number of places after it. -/
def mantissa? (cs : List Char) : Option (Nat × Nat) := do
  let whole := cs.takeWhile (· ≠ '.')
  let places := (cs.dropWhile (· ≠ '.')).tail
  guard (whole ++ places ≠ [])
  let n ← Decimal.continueNatural 0 (whole ++ places)
  return (n, places.length)

/-- A double without its sign, in any case of letters. -/
def magnitude? (negative : Bool) (cs : List Char) : Option Decimal.Binary64 :=
  let cs := Text.lowerChars cs
  if cs = "inf".toList ∨ cs = "infinity".toList then some (.infinity negative)
  else if cs = "nan".toList then some .nan
  else do
    let (n, places) ← mantissa? (cs.takeWhile (· ≠ 'e'))
    let exponent ←
      match cs.dropWhile (· ≠ 'e') with
      | [] => some 0
      | _ :: text => Decimal.readInteger text
    return .ofDecimal negative n (exponent - Int.ofNat places)

/-- The double that a text means. -/
def double? : List Char → Option Decimal.Binary64
  | '+' :: cs => magnitude? false cs
  | '-' :: cs => magnitude? true cs
  | cs => magnitude? false cs

/-- What the value of a variable means: a Boolean in any case of letters, else an integer of 64
    bits, else a double, else a text. -/
def value (s : String) : Document :=
  let cs := s.toList
  if Text.lowerChars cs = "true".toList then .bool true
  else if Text.lowerChars cs = "false".toList then .bool false
  else
    match Decimal.readInt64 cs with
    | some i => .integer i
    | none =>
      match double? cs with
      | some x => .float x
      | none => .text s

/-- The variables as a source. -/
def source (environment : List (String × String)) : List (String × Document) :=
  environment.filterMap fun (name, text) =>
    if text = "" then none else (key? name).map fun key => (key, value text)

end LoggerHierarchy.Environment
