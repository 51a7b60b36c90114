import FxPulse.Number.Numeral
import FxPulse.Number.Shortest

/-!
# `Number/Layout.lean` — where the point goes

Two forms of the same digits. The *plain* form never uses a power of ten and writes a whole number
without a point; it is the form of messages and labels. The *exact* form shows that it is a float:
it always has a digit behind the point, and turns to a power of ten from `10 ^ 16` up and below
`10 ^ -4`. Answers are written in the exact form.
-/

set_option autoImplicit false

namespace FxPulse.Number

/-- The digits of `0.d₁d₂… * 10 ^ point` with the point put in: before it and behind it. -/
def placePoint (digits : List Char) (point : Int) : List Char × List Char :=
  if digits.isEmpty then (['0'], [])
  else if point ≤ 0 then (['0'], List.replicate (-point).toNat '0' ++ digits)
  else
    let before := point.toNat
    (digits.take before ++ List.replicate (before - digits.length) '0', digits.drop before)

/-- Least power of ten, and the first too great, that the exact form writes out in full. -/
def exactPowers : Int × Int := (-4, 16)

/-- The exact form of a finite float. -/
def numeral? (x : Float) : Option Numeral :=
  match Binary.ofFloat x with
  | .finite negative magnitude =>
    let (digits, point) := magnitude.digits
    let leading := point - 1
    if digits.isEmpty || (decide (exactPowers.1 ≤ leading) && decide (leading < exactPowers.2)) then
      let (whole, fraction) := placePoint digits point
      some ⟨negative, whole, some (if fraction.isEmpty then ['0'] else fraction), none⟩
    else
      let fraction := digits.drop 1
      some ⟨negative, digits.take 1, if fraction.isEmpty then none else some fraction, some leading⟩
  | _ => none

/-- The text of a float that no numeral spells. -/
def nonFiniteText (x : Float) : String :=
  if x.isNaN then "NaN" else if x < 0.0 then "-inf" else "inf"

def exactText (x : Float) : String :=
  match numeral? x with
  | some n => n.text
  | none => nonFiniteText x

def plainText (x : Float) : String :=
  match Binary.ofFloat x with
  | .finite negative magnitude =>
    let (digits, point) := magnitude.digits
    let (whole, fraction) := placePoint digits point
    Numeral.text ⟨negative, whole, if fraction.isEmpty then none else some fraction, none⟩
  | _ => nonFiniteText x

end FxPulse.Number
