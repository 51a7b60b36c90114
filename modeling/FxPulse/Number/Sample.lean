/-!
# `Number/Sample.lean` — sums, means and extremes of floats

Float sums depend on their order and on the value they start from, and extremes depend on what is
done with NaN and with the two zeros. Each is fixed here once: sums run from left to right starting
at negative zero, which is the one float that changes no other; extremes pass over NaN, and of two
equal values keep the one seen last, so that of two zeros the later one's sign stands.
-/

set_option autoImplicit false

namespace FxPulse.Number

def sum (xs : List Float) : Float :=
  xs.foldl (· + ·) (-0.0)

/-- Zero for no values. -/
def mean (xs : List Float) : Float :=
  if xs.isEmpty then 0.0 else sum xs / xs.length.toFloat

/-- The standard deviation of a whole population, zero for no values. -/
def deviation (xs : List Float) : Float :=
  if xs.isEmpty then 0.0
  else
    let centre := mean xs
    (sum (xs.map fun x => (x - centre) * (x - centre)) / xs.length.toFloat).sqrt

/-- The greater of two values, the second if they are equal. -/
def greater (a b : Float) : Float :=
  if b < a || b.isNaN then a else b

/-- The lesser of two values, the second if they are equal. -/
def lesser (a b : Float) : Float :=
  if a < b || b.isNaN then a else b

/-- Negative infinity for no values. -/
def greatest (xs : List Float) : Float :=
  xs.foldl greater (-(1.0 / 0.0))

/-- Infinity for no values. -/
def least (xs : List Float) : Float :=
  xs.foldl lesser (1.0 / 0.0)

end FxPulse.Number
