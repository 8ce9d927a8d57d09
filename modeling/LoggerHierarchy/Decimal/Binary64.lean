namespace LoggerHierarchy.Decimal

/-!
# Binary floating point numbers of 64 bits

A double is kept as its bit pattern, so that two of them can be told apart by `=`:

* `Binary64` — the bit pattern, with its three fields;
* `Binary64.Reading` — what the pattern stands for: not a number, an infinity, or a sign with
  `mantissa · 2 ^ exponent`;
* `Binary64.ofDecimal` — the double nearest to a decimal;
* `Binary64.scale?` — a double times a power of ten, rounded at each step.
-/

/-- A 64-bit binary floating point number, by its bits. -/
structure Binary64 where
  bits : UInt64
  deriving DecidableEq, Repr

namespace Binary64

/-- What a double stands for. -/
inductive Reading where
  | notANumber
  | infinite (negative : Bool)
  | finite (negative : Bool) (mantissa : Nat) (exponent : Int)
  deriving DecidableEq, Repr

def isNegative (x : Binary64) : Bool :=
  x.bits >>> 63 != 0

/-- The eleven bits of the exponent field. -/
def exponentField (x : Binary64) : Nat :=
  ((x.bits >>> 52) &&& 0x7FF).toNat

/-- The fifty-two bits of the fraction field. -/
def fractionField (x : Binary64) : Nat :=
  (x.bits &&& 0xFFFFFFFFFFFFF).toNat

/-- The leading bit of a mantissa, which the pattern leaves out: two to the power 52. -/
def leadingBit : Nat := 0x10000000000000

/-- The value of the bit pattern. -/
def read (x : Binary64) : Reading :=
  if x.exponentField = 2047 then
    if x.fractionField = 0 then .infinite x.isNegative else .notANumber
  else if x.exponentField = 0 then .finite x.isNegative x.fractionField (-1074)
  else .finite x.isNegative (leadingBit + x.fractionField) (Int.ofNat x.exponentField - 1075)

def infinity (negative : Bool) : Binary64 :=
  ⟨if negative then 0xFFF0000000000000 else 0x7FF0000000000000⟩

def zero (negative : Bool) : Binary64 :=
  ⟨if negative then 0x8000000000000000 else 0⟩

def nan : Binary64 := ⟨0x7FF8000000000000⟩

/-- The double nearest to `mantissa · 10 ^ exponent` with the given sign; one beyond the largest
    double is infinite, one far below the smallest is zero. -/
def ofDecimal (negative : Bool) (mantissa : Nat) (exponent : Int) : Binary64 :=
  let magnitude : Int := Int.ofNat (Nat.toDigits 10 mantissa).length + exponent
  if mantissa = 0 ∨ magnitude < -330 then zero negative
  else if 310 < magnitude then infinity negative
  else
    let x := Float.ofScientific mantissa (decide (exponent < 0)) exponent.natAbs
    ⟨(if negative then -x else x).toBits⟩

/-- Whether the double is an infinity. -/
def isInfinite (x : Binary64) : Bool :=
  match x.read with
  | .infinite _ => true
  | _ => false

/-- Whether the double is a zero of either sign. -/
def isZero (x : Binary64) : Bool :=
  x == zero false || x == zero true

/-- The double nearest to the product of two. -/
def mul (x y : Binary64) : Binary64 :=
  ⟨(Float.ofBits x.bits * Float.ofBits y.bits).toBits⟩

/-- The double nearest to the quotient of two. -/
def div (x y : Binary64) : Binary64 :=
  ⟨(Float.ofBits x.bits / Float.ofBits y.bits).toBits⟩

/-- The double nearest to `10 ^ n`. -/
def powerOfTen (n : Nat) : Binary64 :=
  ofDecimal false 1 n

/-- The exponent of the largest power of ten among the finite doubles. -/
def largestPower : Nat := 308

/-- `x · 10 ^ exponent` by one product with a power of ten, or by quotients by powers of ten; none
    if it is too large.  Each step rounds, so that the result may differ from the nearest double. -/
def scale? (x : Binary64) (exponent : Int) : Option Binary64 :=
  if x.isZero then some x
  else if largestPower < exponent then none
  else if 0 ≤ exponent then
    let product := x.mul (powerOfTen exponent.toNat)
    if product.isInfinite then none else some product
  else if -largestPower ≤ exponent then some (x.div (powerOfTen exponent.natAbs))
  else scale? (x.div (powerOfTen largestPower)) (exponent + largestPower)
termination_by exponent.natAbs
decreasing_by simp only [largestPower] at *; omega

end Binary64

end LoggerHierarchy.Decimal
