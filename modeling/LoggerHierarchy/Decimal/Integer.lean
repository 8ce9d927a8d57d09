namespace LoggerHierarchy.Decimal

/-!
# Decimal integers

Reading the decimal text of an integer:

* `digit?` — the value of an ASCII digit; no other digit counts;
* `readNatural` — one or more digits;
* `readInteger` — digits after at most one sign;
* `readInt32`, `readInt64` — the same, refused outside the width's range;
* `fitsInt64`, `fitsUInt64` — the ranges of 64 bits.
-/

/-- The value of an ASCII digit. -/
def digit? (c : Char) : Option Nat :=
  if '0' ≤ c ∧ c ≤ '9' then some (c.toNat - '0'.toNat) else none

/-- The number that `digits` continues `start` to, if they are digits throughout. -/
def continueNatural (start : Nat) : List Char → Option Nat
  | [] => some start
  | c :: cs => (digit? c).bind fun d => continueNatural (10 * start + d) cs

/-- The number written by one or more digits. -/
def readNatural : List Char → Option Nat
  | [] => none
  | cs => continueNatural 0 cs

/-- The integer written by digits after at most one sign. -/
def readInteger : List Char → Option Int
  | '+' :: cs => (readNatural cs).map Int.ofNat
  | '-' :: cs => (readNatural cs).map fun n => -Int.ofNat n
  | cs => (readNatural cs).map Int.ofNat

/-- The 32-bit integer written by the text, none if it is out of range. -/
def readInt32 (cs : List Char) : Option Int32 :=
  (readInteger cs).bind fun i =>
    if -2147483648 ≤ i ∧ i ≤ 2147483647 then some (Int32.ofInt i) else none

/-- Whether an integer fits in 64 bits with a sign. -/
def fitsInt64 (i : Int) : Bool :=
  decide (-9223372036854775808 ≤ i ∧ i ≤ 9223372036854775807)

/-- Whether a natural fits in 64 bits without a sign. -/
def fitsUInt64 (n : Nat) : Bool :=
  decide (n ≤ 18446744073709551615)

/-- The integer written by the text, none if it does not fit in 64 bits with a sign. -/
def readInt64 (cs : List Char) : Option Int :=
  (readInteger cs).filter fitsInt64

end LoggerHierarchy.Decimal
