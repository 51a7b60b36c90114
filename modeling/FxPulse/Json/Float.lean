import FxPulse.Number.Reader
import FxPulse.Json.Basic

/-!
# `Json/Float.lean` — the floats of messages

A message's numbers are read fast rather than exactly. The digits are gathered in a 64-bit word; when
it is full, further digits before the point only raise the power of ten, and further digits behind it
are dropped. The word, rounded to a float, is then multiplied or divided by a power of ten. So the
last bit may differ from the nearest float; a number too great for a float is refused.
-/

set_option autoImplicit false

namespace FxPulse.Json

open FxPulse.Number

/-- Digits gathered in a word, and the power of ten that they lack. -/
structure Gathered where
  word : Nat
  power : Int
deriving DecidableEq, Repr

namespace Gathered

/-- The word with one more digit, if it fits. -/
def append? (word : Nat) (digit : Char) : Option Nat :=
  let next := 10 * word + (digit.toNat - '0'.toNat)
  if next ≤ greatestWord then some next else none

/-- Gathers the digits before the point. -/
def whole (word : Nat) : List Char → Gathered
  | [] => ⟨word, 0⟩
  | d :: rest =>
    match append? word d with
    | some next => whole next rest
    | none => ⟨word, rest.length + 1⟩

/-- Gathers the digits behind the point. -/
def fraction (g : Gathered) : List Char → Gathered
  | [] => g
  | d :: rest =>
    match append? g.word d with
    | some next => fraction ⟨next, g.power - 1⟩ rest
    | none => g

def ofNumeral (n : Numeral) : Gathered :=
  fraction (whole 0 n.whole) (n.fraction.getD [])

end Gathered

/-- The greatest power of ten among floats. -/
def greatestPower : Nat := 308

def powerOfTen (n : Nat) : Float := Float.ofScientific 1 false n

/-- Divides by `10 ^ power`, in steps where the power is no float. -/
def scaleDown (x : Float) (power : Nat) : Float :=
  if power ≤ greatestPower then x / powerOfTen power
  else if x == 0.0 then x
  else scaleDown (x / powerOfTen greatestPower) (power - greatestPower)
termination_by power
decreasing_by simp_all [greatestPower]; omega

/-- Multiplies by `10 ^ power`, unless that is too great for a float. -/
def scaleUp? (x : Float) (power : Nat) : Option Float :=
  if power ≤ greatestPower then
    let scaled := x * powerOfTen power
    if scaled.isInf then none else some scaled
  else if x == 0.0 then some x
  else none

/-- The greatest power of ten that a message may spell out. -/
def greatestExponent : Nat := 2147483647

/-- The magnitude of a number. A spelled power that is out of all bounds leaves zero, or nothing. -/
def magnitude? (n : Numeral) : Option Float :=
  let g := Gathered.ofNumeral n
  let spelled := n.exponent.getD 0
  if greatestExponent < spelled.natAbs then
    if g.word ≠ 0 ∧ 0 < spelled then none else some 0.0
  else
    let power := g.power + spelled
    if 0 ≤ power then scaleUp? g.word.toFloat power.toNat
    else some (scaleDown g.word.toFloat power.natAbs)

/-- The float that a message's number stands for. -/
def floatOf? (n : Numeral) : Option Float :=
  (magnitude? n).map fun x => if n.negative then -x else x

end FxPulse.Json
