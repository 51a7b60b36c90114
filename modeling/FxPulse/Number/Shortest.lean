import FxPulse.Number.Binary

/-!
# `Number/Shortest.lean` — the fewest digits that read back

A float is written with the fewest decimal digits from which the same float is read again. The
reals that read as a given float form an interval around it, reaching half way to each neighbour;
the ends belong to it when the significand is even, since a reader breaks ties to even. A grid of
decimals (all those with a fixed last place) meets that interval only if one of the two grid points
next to the float lies in it. So the grids are tried from the coarsest on, two points each.

All of it is exact arithmetic on natural numbers: a magnitude is a fraction `value / unit`.
-/

set_option autoImplicit false

namespace FxPulse.Number

/-- `digits * 10 ^ power`. -/
structure Decimal where
  digits : Nat
  power : Int
deriving DecidableEq, Repr

/-- How many decimal digits a number has, one for zero. -/
def digitCount (n : Nat) : Nat := (Nat.toDigits 10 n).length

/-- The reals that read back as one float: from `low / unit` to `high / unit` around `value / unit`. -/
structure Interval where
  low : Nat
  value : Nat
  high : Nat
  unit : Nat
  closed : Bool
deriving DecidableEq, Repr

namespace Interval

/-- Half a step on either side; the step below a power of two is only half as wide. -/
def ofMagnitude (m : Magnitude) : Interval :=
  let scale := Nat.pow 2 (m.exponent - 2).toNat
  let lowGap :=
    if m.significand = Binary.leastNormal ∧ Binary.leastExponent < m.exponent then 1 else 2
  { low := (4 * m.significand - lowGap) * scale
    value := 4 * m.significand * scale
    high := (4 * m.significand + 2) * scale
    unit := Nat.pow 2 (2 - m.exponent).toNat
    closed := m.significand % 2 = 0 }

/-- Whether the fraction `p / q` reads back as the float. -/
def holds (i : Interval) (p q : Nat) : Bool :=
  let below := i.low * q
  let above := i.high * q
  let point := p * i.unit
  if i.closed then decide (below ≤ point ∧ point ≤ above) else decide (below < point ∧ point < above)

/-- The power of ten of the leading digit of a positive value. -/
def leadingPower (i : Interval) : Int :=
  if i.unit ≤ i.value then
    (digitCount (i.value / i.unit) : Int) - 1
  else
    -(digitCount ((i.unit - 1) / i.value) : Int)

/-- The better of the two decimals next to the value with last place `10 ^ power`, if one reads
back: the nearer of the two, and of two equally near ones the greater. -/
def onGrid? (i : Interval) (power : Int) : Option Decimal :=
  let up := Nat.pow 10 power.toNat
  let below := Nat.pow 10 (-power).toNat
  let p := i.value * below
  let q := i.unit * up
  let down := p / q
  let point (digits : Nat) : Bool := i.holds (digits * up) below
  match point down, point (down + 1) with
  -- The value lies `p % q` parts of `q` above the lower of the two.
  | true, true => if 2 * (p % q) < q then some ⟨down, power⟩ else some ⟨down + 1, power⟩
  | true, false => some ⟨down, power⟩
  | false, true => some ⟨down + 1, power⟩
  | false, false => none

/-- Seventeen digits tell all floats apart, so some grid up to the seventeenth is met. -/
def shortest (i : Interval) : Decimal :=
  let grids := (List.range 17).map fun (n : Nat) => i.leadingPower - (n : Int)
  (grids.findSome? i.onGrid?).getD ⟨0, 0⟩

end Interval

/-- The same number without trailing zeros in its digits. -/
def Decimal.digitList (d : Decimal) : List Char × Int :=
  let all := Nat.toDigits 10 d.digits
  let zeros := (all.reverse.takeWhile (· == '0')).length
  (all.take (all.length - zeros), d.power + all.length)

/-- The digits of a magnitude, none for zero, and the place of the point: the value is
`0.d₁d₂… * 10 ^ point`. -/
def Magnitude.digits (m : Magnitude) : List Char × Int :=
  if m.significand = 0 then ([], 0) else (Interval.ofMagnitude m).shortest.digitList

end FxPulse.Number
