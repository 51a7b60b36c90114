import FxPulse.Number.Word

/-!
# `Number/Binary.lean` — a float taken apart

Prices are 64-bit floats. Writing one down exactly, telling whether it is whole and ranking it all
start from the same reading of its bits: a sign, a significand and a power of two. `Binary.ofFloat`
is that reading, and the only place that knows the layout of the bits.
-/

set_option autoImplicit false

namespace FxPulse.Number

/-- The magnitude `significand * 2 ^ exponent` of a finite float. -/
structure Magnitude where
  significand : Nat
  exponent : Int
deriving DecidableEq, Repr

/-- What a float stands for. There is one NaN, and it has no sign. -/
inductive Binary where
  | finite (negative : Bool) (magnitude : Magnitude)
  | infinite (negative : Bool)
  | nan
deriving DecidableEq, Repr

/-- The least exponent, that of the subnormal numbers. -/
def Binary.leastExponent : Int := -1074

/-- The least significand of a normal number: the bit that is not written, `2 ^ 52`. -/
def Binary.leastNormal : Nat := 0x10000000000000

/-- Eleven bits of exponent over fifty-two of fraction. A normal number has one more bit of
significand than is written, a subnormal one has not. -/
def Binary.ofFloat (x : Float) : Binary :=
  let bits : Nat := x.toBits.toNat
  let negative := decide (signedLimit ≤ bits)
  let field : Nat := bits / leastNormal % 2048
  let fraction : Nat := bits % leastNormal
  if field = 2047 then
    if fraction = 0 then .infinite negative else .nan
  else if field = 0 then
    .finite negative ⟨fraction, leastExponent⟩
  else
    .finite negative ⟨leastNormal + fraction, leastExponent + ((field : Int) - 1)⟩

/-- The magnitude as a whole number, when it is one. -/
def Magnitude.whole? (m : Magnitude) : Option Nat :=
  if 0 ≤ m.exponent then
    some (m.significand * Nat.pow 2 m.exponent.toNat)
  else
    let unit := Nat.pow 2 (-m.exponent).toNat
    if m.significand % unit = 0 then some (m.significand / unit) else none

end FxPulse.Number
