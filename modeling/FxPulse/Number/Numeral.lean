/-!
# `Number/Numeral.lean` — numbers as they are written

A numeral is a decimal number on paper: a sign, digits before and after a point, a power of ten.
It keeps what its value forgets (`1`, `1.0` and `1e0` are three numerals), because the same text is
read as a count in one place and as a price in another.
-/

set_option autoImplicit false

namespace FxPulse.Number

/-- A decimal number as written. The digit lists hold the characters `0` to `9`. -/
structure Numeral where
  negative : Bool
  whole : List Char
  fraction : Option (List Char)
  exponent : Option Int
deriving DecidableEq, Repr

/-- Digits read as a number, most significant first. -/
def ofDigits (digits : List Char) : Nat :=
  digits.foldl (fun n c => 10 * n + (c.toNat - '0'.toNat)) 0

namespace Numeral

/-- All digits, the point left out. -/
def digits (n : Numeral) : List Char :=
  n.whole ++ n.fraction.getD []

/-- The power of ten that the digits, read as a whole number, are to be multiplied by. -/
def scale (n : Numeral) : Int :=
  n.exponent.getD 0 - (n.fraction.getD []).length

/-- Written with neither a point nor a power of ten. -/
def isWhole (n : Numeral) : Bool :=
  n.fraction.isNone && n.exponent.isNone

/-- The integer that the numeral spells. A point or a power of ten makes it no integer, even where
its value is one, and so does the sign of a negative zero. -/
def integer? (n : Numeral) : Option Int :=
  let value := ofDigits n.whole
  if !n.isWhole then none
  else if n.negative then (if value = 0 then none else some (-value))
  else some value

def text (n : Numeral) : String :=
  (if n.negative then "-" else "")
    ++ String.ofList n.whole
    ++ (match n.fraction with
        | some ds => "." ++ String.ofList ds
        | none => "")
    ++ (match n.exponent with
        | some e => "e" ++ toString e
        | none => "")

/-- The float nearest to the numeral. Far outside the range of floats the answer is known without
raising ten to a power. -/
def nearest (n : Numeral) : Float :=
  let significant := n.digits.dropWhile (· == '0')
  let order := significant.length + n.scale
  let magnitude : Float :=
    if significant.isEmpty || order < -400 then 0.0
    else if 400 < order then 1.0 / 0.0
    else Float.ofScientific (ofDigits significant) (decide (n.scale < 0)) n.scale.natAbs
  if n.negative then -magnitude else magnitude

end Numeral

end FxPulse.Number
