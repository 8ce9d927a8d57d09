namespace LoggerHierarchy.Text

/-!
# Reading text from the left

A reader takes characters off the front of a text, or fails:

* `Reader` — the type, with failure as `none`;
* `peek?`, `next`, `expect`, `expectText` — single characters and fixed texts;
* `span` — the longest run of characters of a class;
* `atEnd` — whether nothing is left.
-/

/-- Takes an `α` off the front of a text. -/
abbrev Reader (α : Type) := StateT (List Char) Option α

namespace Reader

/-- No reading. -/
def refuse {α : Type} : Reader α := fun _ => none

/-- The next character, left where it is. -/
def peek? : Reader (Option Char) := fun cs => some (cs.head?, cs)

/-- The next character. -/
def next : Reader Char
  | [] => none
  | c :: cs => some (c, cs)

/-- A given character. -/
def expect (c : Char) : Reader Unit
  | [] => none
  | d :: cs => if c = d then some ((), cs) else none

/-- A given text. -/
def expectText : List Char → Reader Unit
  | [] => pure ()
  | c :: rest => do
    expect c
    expectText rest

/-- The longest run of characters of a class, possibly empty. -/
def span (p : Char → Bool) : Reader (List Char) := fun cs =>
  some (cs.takeWhile p, cs.dropWhile p)

/-- The longest run of characters of a class, at least one. -/
def span1 (p : Char → Bool) : Reader (List Char) := do
  let run ← span p
  if run.isEmpty then refuse else return run

/-- Whether nothing is left. -/
def atEnd : Reader Bool := fun cs => some (cs.isEmpty, cs)

/-- Takes the character off if it is the next one, and tells whether it was. -/
def skipChar (c : Char) : Reader Bool := do
  if (← peek?) = some c then
    let _ ← next
    return true
  else return false

/-- How many characters are left: more than any reader can take. -/
def remaining : Reader Nat := fun cs => some (cs.length, cs)

/-- What the reader makes of the whole text. -/
def readAll {α : Type} (r : Reader α) (s : String) : Option α :=
  match r s.toList with
  | some (a, []) => some a
  | _ => none

/-! ### Readers on a given text -/

variable {α β : Type} {c d : Char} {cs : List Char}

@[simp] theorem bind_apply (r : Reader α) (f : α → Reader β) (cs : List Char) :
    (r >>= f) cs = (r cs).bind fun (a, rest) => f a rest := rfl

@[simp] theorem pure_apply (a : α) (cs : List Char) : (pure a : Reader α) cs = some (a, cs) := rfl

@[simp] theorem atEnd_apply (cs : List Char) : atEnd cs = some (cs.isEmpty, cs) := rfl

@[simp] theorem remaining_apply (cs : List Char) : remaining cs = some (cs.length, cs) := rfl

/-- All characters of a kind are read at once, and there must be one. -/
theorem span1_apply (p : Char → Bool) (cs : List Char) : span1 p cs =
    if (cs.takeWhile p).isEmpty then none else some (cs.takeWhile p, cs.dropWhile p) := by
  simp only [span1, span, bind_apply, Option.bind_some]
  split <;> rfl

/-- Another character is left where it is. -/
theorem skipChar_of_ne (h : d ≠ c) : skipChar c (d :: cs) = some (false, d :: cs) := by
  have hnot : ¬ some d = some c := by simpa using h
  simp only [skipChar, peek?, bind_apply, Option.bind_some, List.head?_cons, if_neg hnot,
    pure_apply]

/-- Another character than the expected one is refused. -/
theorem expect_of_ne (h : c ≠ d) : expect c (d :: cs) = none := by
  simp [expect, h]

end Reader

/-- The value of a hexadecimal digit. -/
def hexValue? (c : Char) : Option Nat :=
  if '0' ≤ c ∧ c ≤ '9' then some (c.toNat - '0'.toNat)
  else if 'a' ≤ c ∧ c ≤ 'f' then some (c.toNat - 'a'.toNat + 10)
  else if 'A' ≤ c ∧ c ≤ 'F' then some (c.toNat - 'A'.toNat + 10)
  else none

/-- A given number of hexadecimal digits, as their number. -/
def readHex : Nat → Nat → Reader Nat
  | 0, n => pure n
  | count + 1, n => do
    match hexValue? (← Reader.next) with
    | some d => readHex count (16 * n + d)
    | none => Reader.refuse

/-- The character of a number, if it is one's. -/
def char? (n : Nat) : Option Char :=
  if n.isValidChar then some (Char.ofNat n) else none

end LoggerHierarchy.Text
