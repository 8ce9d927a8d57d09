import LoggerHierarchy.Decimal.Integer
import LoggerHierarchy.Document.Basic
import LoggerHierarchy.Text.Reader

namespace LoggerHierarchy.Document.Toml

/-!
# Documents as TOML

A file of keys and values in sections.  A file is read in two passes over its lines:

* `value` — a value: a text, a number, a Boolean, an array or an inline table;
* `Statement`, `statements` — the header or the assignment on each line;
* `Section` — a document in the making, which remembers how each table came about, since a table can
  be opened by one header only and an array or an inline table cannot be extended;
* `parse` — the document of a file.

A part of the format is left out: texts over several lines, dates and times.  A file with one of
them is not read.
-/

open LoggerHierarchy.Text LoggerHierarchy.Text.Reader

/-! ### Blanks, comments and line ends -/

def isBlank (c : Char) : Bool :=
  c == ' ' || c == '\t'

/-- Characters that may stand in a text or a comment. -/
def isPlain (c : Char) : Bool :=
  c == '\t' || (decide (0x20 ≤ c.toNat) && c.toNat != 0x7F)

def skipBlanks : Reader Unit := do
  let _ ← span isBlank

/-- A comment, if there is one. -/
def skipComment : Reader Unit := do
  if ← skipChar '#' then
    let _ ← span isPlain

/-- A line end, if there is one, and whether there was. -/
def skipLineEnd : Reader Bool := fun cs =>
  match cs with
  | '\n' :: rest => some (true, rest)
  | '\r' :: '\n' :: rest => some (true, rest)
  | _ => some (false, cs)

/-- Blanks, comments and line ends; each step takes at least one character. -/
def skipLines : Nat → Reader Unit
  | 0 => pure ()
  | fuel + 1 => do
    skipBlanks
    skipComment
    if ← skipLineEnd then skipLines fuel

/-! ### Texts and keys -/

/-- The character that an escape other than that by number stands for. -/
def escape? : Char → Option Char
  | '"' => some '"'
  | '\\' => some '\\'
  | 'b' => some '\x08'
  | 'f' => some '\x0c'
  | 'n' => some '\n'
  | 'r' => some '\r'
  | 't' => some '\t'
  | _ => none

/-- The character with the number of `digits` hexadecimal digits. -/
def escapedNumber (digits : Nat) : Reader Char := do
  match char? (← readHex digits 0) with
  | some c => return c
  | none => refuse

/-- The rest of a text with escapes after its opening quote. -/
def basicBody : Nat → List Char → Reader String
  | 0, _ => refuse
  | fuel + 1, reversed => do
    let c ← next
    if c = '"' then return String.ofList reversed.reverse
    else if c = '\\' then
      let e ← next
      if e = 'u' then basicBody fuel ((← escapedNumber 4) :: reversed)
      else if e = 'U' then basicBody fuel ((← escapedNumber 8) :: reversed)
      else
        match escape? e with
        | some c => basicBody fuel (c :: reversed)
        | none => refuse
    else if isPlain c then basicBody fuel (c :: reversed)
    else refuse

/-- A text with escapes, between double quotes. -/
def basic : Reader String := do
  expect '"'
  basicBody (← remaining) []

/-- A text without escapes, between single quotes. -/
def verbatim : Reader String := do
  expect '\''
  let cs ← span fun c => isPlain c && c != '\''
  expect '\''
  return String.ofList cs

def isBareChar (c : Char) : Bool :=
  c.isAlphanum || c == '_' || c == '-'

/-- One part of a key. -/
def simpleKey : Reader String := do
  match ← peek? with
  | some '"' => basic
  | some '\'' => verbatim
  | _ => return String.ofList (← span1 isBareChar)

/-- The parts of a key after the first. -/
def keyParts : Nat → List String → Reader (List String)
  | 0, _ => refuse
  | fuel + 1, reversed => do
    skipBlanks
    if ← skipChar '.' then
      skipBlanks
      keyParts fuel ((← simpleKey) :: reversed)
    else return reversed.reverse

/-- How deep arrays and inline tables may be nested, and how many parts a key may have. -/
def depthLimit : Nat := 79

/-- A key: parts with dots between them, blanks allowed around the dots and after the key. -/
def key : Reader (List String) := do
  let first ← simpleKey
  let parts ← keyParts ((← remaining) + 1) [first]
  if depthLimit < parts.length then refuse else return parts

/-! ### Numbers -/

/-- Whether digits may be grouped so: an underscore stands between two digits. -/
def wellGrouped (isDigit : Char → Bool) : List Char → Bool
  | [] => false
  | [c] => isDigit c
  | c :: '_' :: rest => isDigit c && wellGrouped isDigit rest
  | c :: rest => isDigit c && wellGrouped isDigit rest

def ungroup (cs : List Char) : List Char :=
  cs.filter (· ≠ '_')

/-- The number of digits in a base, at most the largest signed 64-bit integer. -/
def inBase (base : Nat) (cs : List Char) : Option Document := do
  let isDigit := fun c => (hexValue? c).any (· < base)
  guard (wellGrouped isDigit cs)
  let n := (ungroup cs).foldl (fun n c => base * n + (hexValue? c).getD 0) 0
  guard (Decimal.fitsInt64 n)
  return .integer n

def natural (cs : List Char) : Nat :=
  (ungroup cs).foldl (fun n c => 10 * n + (c.toNat - '0'.toNat)) 0

/-- Digits before a point: more than one start with another digit than zero. -/
def isWhole (cs : List Char) : Bool :=
  wellGrouped Char.isDigit cs && (cs.length == 1 || cs.head? != some '0')

/-- An exponent, with its sign. -/
def exponent? : List Char → Option Int
  | '+' :: cs => if wellGrouped Char.isDigit cs then some (natural cs) else none
  | '-' :: cs => if wellGrouped Char.isDigit cs then some (-Int.ofNat (natural cs)) else none
  | cs => if wellGrouped Char.isDigit cs then some (natural cs) else none

/-- A double, unless it is too large. -/
def double? (negative : Bool) (whole places : List Char) (exponent : Int) : Option Document :=
  let x := Decimal.Binary64.ofDecimal negative (natural (whole ++ places))
    (exponent - Int.ofNat (ungroup places).length)
  if x = .infinity false then none else some (.float x)

/-- A decimal number without its sign: digits, then maybe places after a point and an exponent. -/
def decimal? (negative : Bool) (cs : List Char) : Option Document := do
  let isExponentMark := fun c => c == 'e' || c == 'E'
  let mantissa := cs.takeWhile (!isExponentMark ·)
  let exponentText := (cs.dropWhile (!isExponentMark ·)).tail
  let whole := mantissa.takeWhile (· ≠ '.')
  let places := (mantissa.dropWhile (· ≠ '.')).tail
  guard (isWhole whole)
  -- neither a point nor an exponent
  if mantissa.length = cs.length ∧ whole.length = mantissa.length then
    let n := natural whole
    let i := if negative then -Int.ofNat n else Int.ofNat n
    guard (Decimal.fitsInt64 i)
    return .integer i
  else
    guard (whole.length = mantissa.length || wellGrouped Char.isDigit places)
    let exponent ← if mantissa.length = cs.length then some 0 else exponent? exponentText
    double? negative whole places exponent

/-- A number after its sign, by its whole text. -/
def unsigned? (negative : Bool) : List Char → Option Document
  | ['i', 'n', 'f'] => some (.float (.infinity negative))
  | ['n', 'a', 'n'] => some (.float .nan)
  | cs => decimal? negative cs

/-- The number that a word spells. -/
def number? : List Char → Option Document
  | '0' :: 'x' :: cs => inBase 16 cs
  | '0' :: 'o' :: cs => inBase 8 cs
  | '0' :: 'b' :: cs => inBase 2 cs
  | '+' :: cs => unsigned? false cs
  | '-' :: cs => unsigned? true cs
  | cs => unsigned? false cs

/-- The characters of numbers and Booleans. -/
def isWordChar (c : Char) : Bool :=
  c.isAlphanum || c == '_' || c == '+' || c == '-' || c == '.'

/-- A number or a Boolean. -/
def word : Reader Document := do
  match ← span1 isWordChar with
  | ['t', 'r', 'u', 'e'] => return .bool true
  | ['f', 'a', 'l', 's', 'e'] => return .bool false
  | cs =>
    match number? cs with
    | some d => return d
    | none => refuse

/-! ### Tables in the making -/

/-- How a table came about. -/
inductive Origin where
  /-- By a header of a table inside it. -/
  | implied
  /-- By its own header. -/
  | header
  /-- By a key with dots. -/
  | dotted
  deriving DecidableEq, Repr

/-- A part of a document in the making. -/
inductive Section where
  /-- A value, which nothing can be added to. -/
  | value (d : Document)
  | table (origin : Origin) (entries : List (String × Section))
  /-- Tables that are headed one by one, the last one first. -/
  | tables (items : List (List (String × Section)))

namespace Section

def find? : List (String × Section) → String → Option Section
  | [], _ => none
  | (k, s) :: rest, key => if k = key then some s else find? rest key

def replace : List (String × Section) → String → Section → List (String × Section)
  | [], key, s => [(key, s)]
  | (k, old) :: rest, key, s => if k = key then (k, s) :: rest else (k, old) :: replace rest key s

/-- The entries with a value under a key with dots.  The table that the value goes into has to be
    made by such a key, now or before; those on the way may also be implied by headers. -/
def assign (entries : List (String × Section)) : List String → Document →
    Option (List (String × Section))
  | [], _ => none
  | [k], d =>
    match find? entries k with
    | some _ => none
    | none => some (entries ++ [(k, .value d)])
  | k :: next :: rest, d =>
    match find? entries k with
    | none => do return entries ++ [(k, .table .dotted (← assign [] (next :: rest) d))]
    | some (.table .dotted inner) => do
      return replace entries k (.table .dotted (← assign inner (next :: rest) d))
    | some (.table .implied inner) => do
      guard (rest ≠ [])
      return replace entries k (.table .implied (← assign inner (next :: rest) d))
    | some (.tables (last :: before)) => do
      guard (rest ≠ [])
      return replace entries k (.tables ((← assign last (next :: rest) d) :: before))
    | some _ => none

/-- The entries after a change below a headed path. -/
def beneath (entries : List (String × Section)) (change : List (String × Section) →
    Option (List (String × Section))) : List String → Option (List (String × Section))
  | [] => change entries
  | k :: rest =>
    match find? entries k with
    | none => do return entries ++ [(k, .table .implied (← beneath [] change rest))]
    | some (.table origin inner) => do
      return replace entries k (.table origin (← beneath inner change rest))
    | some (.tables (last :: before)) => do
      return replace entries k (.tables ((← beneath last change rest) :: before))
    | some _ => none

/-- The entries after the header of a table with the given last key. -/
def openTable (k : String) (entries : List (String × Section)) :
    Option (List (String × Section)) :=
  match find? entries k with
  | none => some (entries ++ [(k, .table .header [])])
  -- a header may come after the headers of tables inside its own
  | some (.table .implied inner) => some (replace entries k (.table .header inner))
  | some _ => none

/-- The entries after the header of one more table of an array with the given last key. -/
def openItem (k : String) (entries : List (String × Section)) : Option (List (String × Section)) :=
  match find? entries k with
  -- the first header of an array also makes it
  | none => some (entries ++ [(k, .tables [[]])])
  | some (.tables items) => some (replace entries k (.tables ([] :: items)))
  | some _ => none

mutual

/-- The finished document. -/
def finish : Section → Document
  | .value d => d
  | .table _ entries => .table (finishEntries entries)
  | .tables items => .array (finishItems items [])

/-- The finished entries of a table. -/
def finishEntries : List (String × Section) → List (String × Document)
  | [] => []
  | (k, s) :: rest => (k, finish s) :: finishEntries rest

/-- The finished items of an array, the first one first, in front of some others. -/
def finishItems : List (List (String × Section)) → List Document → List Document
  | [], done => done
  | entries :: before, done => finishItems before (.table (finishEntries entries) :: done)

end

end Section

/-! ### Values -/

mutual

/-- A value, at most `depth` deep.  Each step takes at least one character. -/
def valueIn : Nat → Nat → Reader Document
  | 0, _ => refuse
  | fuel + 1, depth => do
    match ← peek? with
    | some '"' => return .text (← basic)
    | some '\'' => return .text (← verbatim)
    | some '[' =>
      let _ ← next
      if depth = 0 then refuse
      return .array (← itemsIn fuel (depth - 1) [])
    | some '\x7b' =>
      let _ ← next
      if depth = 0 then refuse
      skipBlanks
      if ← skipChar '\x7d' then return .table []
      else return .table (Section.finishEntries (← pairsIn fuel (depth - 1) []))
    | _ => word

/-- The items of an array up to its closing bracket, on any number of lines; a comma may follow the
    last one. -/
def itemsIn : Nat → Nat → List Document → Reader (List Document)
  | 0, _, _ => refuse
  | fuel + 1, depth, reversed => do
    skipLines (← remaining)
    -- at once, or after the comma of the last item
    if ← skipChar ']' then return reversed.reverse
    else
      let item ← valueIn fuel depth
      skipLines (← remaining)
      if ← skipChar ',' then itemsIn fuel depth (item :: reversed)
      else
        expect ']'
        return (item :: reversed).reverse

/-- The entries of an inline table up to its closing brace, on one line. -/
def pairsIn : Nat → Nat → List (String × Section) → Reader (List (String × Section))
  | 0, _, _ => refuse
  | fuel + 1, depth, entries => do
    skipBlanks
    let k ← key
    expect '='
    skipBlanks
    match Section.assign entries k (← valueIn fuel depth) with
    | none => refuse
    | some entries =>
      skipBlanks
      if ← skipChar ',' then pairsIn fuel depth entries
      else
        expect '\x7d'
        return entries

end

/-- A value. -/
def value : Reader Document := do
  valueIn (2 * (← remaining) + 2) depthLimit

/-! ### Files -/

/-- What stands on a line. -/
inductive Statement where
  | assignment (key : List String) (value : Document)
  | table (key : List String)
  | item (key : List String)

/-- The header or the assignment on a line. -/
def statement : Reader Statement := do
  if ← skipChar '[' then
    if ← skipChar '[' then
      skipBlanks
      let k ← key
      expectText [']', ']']
      return .item k
    else
      skipBlanks
      let k ← key
      expect ']'
      return .table k
  else
    let k ← key
    expect '='
    skipBlanks
    return .assignment k (← value)

/-- The statements of a file, one on a line; each step takes at least one character. -/
def statements : Nat → List Statement → Reader (List Statement)
  | 0, _ => refuse
  | fuel + 1, reversed => do
    skipLines (← remaining)
    if ← atEnd then return reversed.reverse
    else
      let s ← statement
      skipBlanks
      skipComment
      if (← skipLineEnd) || (← atEnd) then statements fuel (s :: reversed) else refuse

/-- A file in the making: its entries, and the path of the headed table that is open. -/
structure Draft where
  entries : List (String × Section) := []
  current : List String := []

/-- The draft after one more statement. -/
def Draft.add (d : Draft) : Statement → Option Draft
  | .assignment key value => do
    let entries ← Section.beneath d.entries (Section.assign · key value) d.current
    return { d with entries }
  | .table key => do
    let entries ← Section.beneath d.entries (Section.openTable (key.getLastD "")) key.dropLast
    return ⟨entries, key⟩
  | .item key => do
    let entries ← Section.beneath d.entries (Section.openItem (key.getLastD "")) key.dropLast
    return ⟨entries, key⟩

/-- The statements of a whole file; a byte order mark may stand before them. -/
def file : Reader (List Statement) := do
  let _ ← skipChar '\ufeff'
  statements ((← remaining) + 1) []

/-- The entries of a file. -/
def parse (s : String) : Option (List (String × Document)) := do
  let found ← readAll file s
  let draft ← found.foldlM Draft.add {}
  return Section.finishEntries draft.entries

end LoggerHierarchy.Document.Toml
