import LoggerHierarchy.Decimal.Integer
import LoggerHierarchy.Decimal.Shortest
import LoggerHierarchy.Document.Basic
import LoggerHierarchy.Text.Quoted
import LoggerHierarchy.Text.Reader

namespace LoggerHierarchy.Document.Json

/-!
# Documents as JSON

* `value` — reads one document off the front of a text;
* `parse` — reads a document that is the whole text;
* `render` — writes a document on one line, without blanks.

An integer that fits in 64 bits, with or without a sign, stays an integer; any other number is a
double, and minus zero is one too.  A double is made from its leading digits, as many as fit in 64
bits, and a power of ten; one that comes out too large is refused.  Of two entries with one key the
later one counts.
-/

open LoggerHierarchy.Text LoggerHierarchy.Text.Reader

/-! ### Reading -/

def isBlank (c : Char) : Bool :=
  c == ' ' || c == '\n' || c == '\t' || c == '\r'

def skipBlanks : Reader Unit := do
  let _ ← span isBlank

/-- The character that an escape other than that by number stands for. -/
def escape? : Char → Option Char
  | '"' => some '"'
  | '\\' => some '\\'
  | '/' => some '/'
  | 'b' => some '\x08'
  | 'f' => some '\x0c'
  | 'n' => some '\n'
  | 'r' => some '\r'
  | 't' => some '\t'
  | _ => none

/-- The character after `\u`: four digits, or two groups of four for one beyond the first 65536. -/
def escapedUnit : Reader Char := do
  let unit ← readHex 4 0
  if 0xD800 ≤ unit && unit < 0xDC00 then
    -- the first group is worth nothing without the second
    expectText ['\\', 'u']
    let low ← readHex 4 0
    if 0xDC00 ≤ low && low < 0xE000 then
      match char? (0x10000 + (unit - 0xD800) * 0x400 + (low - 0xDC00)) with
      | some c => return c
      | none => refuse
    else refuse
  else
    match char? unit with
    | some c => return c
    | none => refuse

/-- The rest of a text after its opening quote; each step takes at least one character. -/
def textBody : Nat → List Char → Reader String
  | 0, _ => refuse
  | fuel + 1, reversed => do
    let c ← next
    if c = '"' then return String.ofList reversed.reverse
    else if c = '\\' then
      let e ← next
      if e = 'u' then
        let c ← escapedUnit
        textBody fuel (c :: reversed)
      else
        match escape? e with
        | some c => textBody fuel (c :: reversed)
        | none => refuse
    else if c.toNat < 0x20 then refuse
    else textBody fuel (c :: reversed)

/-- A text after its opening quote. -/
def quoted : Reader String := do
  textBody (← remaining) []

/-- The digits of a number before its point: a zero stands alone. -/
def wholeDigits : Reader (List Char) := do
  let digits ← span1 Char.isDigit
  if digits.head? = some '0' && digits.length ≠ 1 then refuse else return digits

def naturalOf (digits : List Char) : Nat :=
  digits.foldl (fun n c => 10 * n + (c.toNat - '0'.toNat)) 0

/-- The exponent of a number, if it has one. -/
def exponentPart : Reader (Option Int) := do
  match ← peek? with
  | some 'e' | some 'E' =>
    let _ ← next
    let negative ← skipChar '-'
    unless negative do
      let _ ← skipChar '+'
    let n := naturalOf (← span1 Char.isDigit)
    return some (if negative then -Int.ofNat n else Int.ofNat n)
  | _ => return none

/-- Appends digits to a number as long as it fits in 64 bits: the number, and the digits left. -/
def appendDigits (n : Nat) : List Char → Nat × List Char
  | [] => (n, [])
  | c :: cs =>
    let more := 10 * n + (c.toNat - '0'.toNat)
    if Decimal.fitsUInt64 more then appendDigits more cs else (n, c :: cs)

/-- The number with the given sign, digits before and after its point, and exponent.  A digit that
    is left out before the point counts as a zero, one that is left out after it not at all. -/
def ofNumber (negative : Bool) (whole : List Char) (fraction : Option (List Char))
    (exponent : Option Int) : Option Document :=
  let (n, left) := appendDigits 0 whole
  let integral := fraction.isNone && exponent.isNone && left.isEmpty
  if integral && !negative then some (.integer n)
  -- minus zero is left to the doubles
  else if integral && n ≠ 0 && Decimal.fitsInt64 (-Int.ofNat n) then some (.integer (-Int.ofNat n))
  else
    let places := fraction.getD []
    let (significand, unused) := appendDigits n places
    let shift := Int.ofNat left.length - Int.ofNat (places.length - unused.length)
    let x := Decimal.Binary64.ofDecimal negative significand 0
    (x.scale? (exponent.getD 0 + shift)).map .float

/-- A number. -/
def number : Reader Document := do
  let negative ← skipChar '-'
  let whole ← wholeDigits
  let fraction ←
    if ← skipChar '.' then some <$> span1 Char.isDigit else pure none
  match ofNumber negative whole fraction (← exponentPart) with
  | some d => return d
  | none => refuse

/-- How deep arrays and tables may be nested. -/
def depthLimit : Nat := 127

mutual

/-- A document after the blanks before it.  Each step takes at least one character, so that the
    number of characters left is enough fuel. -/
def valueIn : Nat → Nat → Reader Document
  | 0, _ => refuse
  | fuel + 1, depth => do
    skipBlanks
    match ← peek? with
    | some 'n' => expectText ['n', 'u', 'l', 'l']; return .null
    | some 't' => expectText ['t', 'r', 'u', 'e']; return .bool true
    | some 'f' => expectText ['f', 'a', 'l', 's', 'e']; return .bool false
    | some '"' =>
      let _ ← next
      return .text (← quoted)
    | some '[' =>
      let _ ← next
      if depth = 0 then refuse
      skipBlanks
      if ← skipChar ']' then return .array [] else return .array (← itemsIn fuel (depth - 1) [])
    | some '\x7b' =>
      let _ ← next
      if depth = 0 then refuse
      skipBlanks
      if ← skipChar '\x7d' then return .table []
      else return .table (← entriesIn fuel (depth - 1) [])
    | _ => number

/-- The items of an array up to its closing bracket. -/
def itemsIn : Nat → Nat → List Document → Reader (List Document)
  | 0, _, _ => refuse
  | fuel + 1, depth, reversed => do
    let item ← valueIn fuel depth
    skipBlanks
    if ← skipChar ',' then itemsIn fuel depth (item :: reversed)
    else
      expect ']'
      return (item :: reversed).reverse

/-- The entries of a table up to its closing brace. -/
def entriesIn : Nat → Nat → List (String × Document) → Reader (List (String × Document))
  | 0, _, _ => refuse
  | fuel + 1, depth, entries => do
    skipBlanks
    expect '"'
    let key ← quoted
    skipBlanks
    expect ':'
    let entries := put entries key (← valueIn fuel depth)
    skipBlanks
    if ← skipChar ',' then entriesIn fuel depth entries
    else
      expect '\x7d'
      return entries

end

/-- The document at the front of a text. -/
def value : Reader Document := do
  valueIn (2 * (← remaining) + 2) depthLimit

/-- Whether only blanks are left. -/
def isOver (rest : List Char) : Bool :=
  rest.all isBlank

/-- The document that is the whole text. -/
def parse (s : String) : Option Document :=
  match value s.toList with
  | some (d, rest) => if isOver rest then some d else none
  | none => none

/-! ### Writing -/

/-- The two hexadecimal digits of a character below 256. -/
def twoHexDigits (n : Nat) : List Char :=
  (if n < 16 then ['0'] else []) ++ hexDigits n

/-- One character between quotes. -/
def escapeChar (c : Char) : List Char :=
  if c = '"' then ['\\', '"']
  else if c = '\\' then ['\\', '\\']
  else if c = '\x08' then ['\\', 'b']
  else if c = '\x0c' then ['\\', 'f']
  else if c = '\n' then ['\\', 'n']
  else if c = '\r' then ['\\', 'r']
  else if c = '\t' then ['\\', 't']
  else if c.toNat < 0x20 then ['\\', 'u', '0', '0'] ++ twoHexDigits c.toNat
  else [c]

/-- A text between quotes. -/
def renderText (s : String) : List Char :=
  '"' :: s.toList.flatMap escapeChar ++ ['"']

/-- A double; one that is no finite number is written as null. -/
def renderFloat (x : Decimal.Binary64) : List Char :=
  match x.read with
  | .finite .. => x.text.toList
  | _ => ['n', 'u', 'l', 'l']

mutual

/-- A document in front of some characters. -/
def renderOnto : Document → List Char → List Char
  | .null, rest => 'n' :: 'u' :: 'l' :: 'l' :: rest
  | .bool true, rest => 't' :: 'r' :: 'u' :: 'e' :: rest
  | .bool false, rest => 'f' :: 'a' :: 'l' :: 's' :: 'e' :: rest
  | .integer i, rest => (toString i).toList ++ rest
  | .float x, rest => renderFloat x ++ rest
  | .text s, rest => renderText s ++ rest
  | .array items, rest => '[' :: renderItems items (']' :: rest)
  | .table entries, rest => '\x7b' :: renderEntries entries ('\x7d' :: rest)

/-- Items with commas between them, in front of some characters. -/
def renderItems : List Document → List Char → List Char
  | [], rest => rest
  | [item], rest => renderOnto item rest
  | item :: items, rest => renderOnto item (',' :: renderItems items rest)

/-- Entries with commas between them, in front of some characters. -/
def renderEntries : List (String × Document) → List Char → List Char
  | [], rest => rest
  | [(key, item)], rest => renderText key ++ ':' :: renderOnto item rest
  | (key, item) :: entries, rest =>
    renderText key ++ ':' :: renderOnto item (',' :: renderEntries entries rest)

end

/-- The document on one line. -/
def render (d : Document) : String :=
  String.ofList (renderOnto d [])

end LoggerHierarchy.Document.Json
