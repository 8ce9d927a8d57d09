import LoggerHierarchy.Decimal.Binary64

namespace LoggerHierarchy.Decimal

/-!
# Shortest decimals

The decimal text of a double that has the fewest digits among all that read back as it, and is the
nearest of those:

* `Interval` — the reals that round to a double, as a fraction of three naturals over one;
* `shortest` — the digits and their power of ten: on ever finer decimal grids, down to that of
  seventeen digits, the two neighbours of the value are tried;
* `positional` — a decimal written without an exponent;
* `Binary64.text` — the text of any double.
-/

/-- The reals that round to a positive double: the value and its two bounds over `scale`. -/
structure Interval where
  lower : Nat
  value : Nat
  upper : Nat
  scale : Nat
  /-- The bounds themselves round to the double. -/
  closed : Bool

/-- The interval of `mantissa · 2 ^ exponent`.  The gap below the least mantissa of an exponent is
    half as wide as the gap above it, unless no smaller exponent is left. -/
def Interval.ofBinary (mantissa : Nat) (exponent : Int) : Interval :=
  let up := Nat.pow 2 (exponent - 2).toNat
  let down := Nat.pow 2 (2 - exponent).toNat
  let narrow := mantissa = Binary64.leadingBit ∧ -1074 < exponent
  { lower := (4 * mantissa - if narrow then 1 else 2) * up
    value := 4 * mantissa * up
    upper := (4 * mantissa + 2) * up
    scale := down
    closed := mantissa % 2 = 0 }

/-- Whether `n / d` rounds to the double. -/
def Interval.contains (i : Interval) (n d : Nat) : Bool :=
  if i.closed then decide (i.lower * d ≤ n * i.scale) && decide (n * i.scale ≤ i.upper * d)
  else decide (i.lower * d < n * i.scale) && decide (n * i.scale < i.upper * d)

/-- The number of decimal digits of a natural. -/
def digitCount (n : Nat) : Nat :=
  (Nat.toDigits 10 n).length

/-- The power of ten of the leading digit of `n / d`, for positive `n` and `d`. -/
def leadingPower (n d : Nat) : Int :=
  if d ≤ n then Int.ofNat (digitCount (n / d)) - 1 else -Int.ofNat (digitCount ((d - 1) / n))

/-- The better neighbour of the value on the grid of the multiples of `10 ^ power`, if one of the
    two rounds to the double; of two equally near ones the upper. -/
def Interval.onGrid? (i : Interval) (power : Int) : Option Nat :=
  let up := Nat.pow 10 power.toNat
  let down := Nat.pow 10 (-power).toNat
  let below := i.value * down / (i.scale * up)
  let rest := i.value * down % (i.scale * up)
  let hitsBelow := i.contains (below * up) down && below != 0
  let hitsAbove := i.contains ((below + 1) * up) down
  if hitsBelow && (!hitsAbove || decide (2 * rest < i.scale * up)) then some below
  else if hitsAbove then some (below + 1)
  else none

/-- The digits, as one number, and the power of ten of the shortest decimal of
    `mantissa · 2 ^ exponent`.  The first grid is that of the power of ten above the value, which
    may be all it takes to read back. -/
def shortest (mantissa : Nat) (exponent : Int) : Nat × Int :=
  let i := Interval.ofBinary mantissa exponent
  let lead := leadingPower i.value i.scale + 1
  let tries := (List.range 18).filterMap fun k =>
    let power := lead - Int.ofNat k
    (i.onGrid? power).map fun n => (n, power)
  tries.headD (i.value / i.scale, 0)

/-- The text of `digits · 10 ^ power` without an exponent: no decimal point where no fraction is
    left, and a zero before a leading point. -/
def positional (digits : Nat) (power : Int) : String :=
  let ds := Nat.toDigits 10 digits
  if 0 ≤ power then String.ofList (ds ++ List.replicate power.toNat '0')
  else
    let places := power.natAbs
    let padded := List.replicate (places + 1 - ds.length) '0' ++ ds
    let whole := padded.length - places
    String.ofList (padded.take whole ++ '.' :: padded.drop whole)

/-- The text of a double: its shortest decimal without an exponent, `inf` and `NaN` for the rest. -/
def Binary64.text (x : Binary64) : String :=
  match x.read with
  | .notANumber => "NaN"
  | .infinite negative => if negative then "-inf" else "inf"
  | .finite negative mantissa exponent =>
    let magnitude :=
      if mantissa = 0 then "0"
      else
        let (digits, power) := shortest mantissa exponent
        positional digits power
    if negative then "-" ++ magnitude else magnitude

end LoggerHierarchy.Decimal
