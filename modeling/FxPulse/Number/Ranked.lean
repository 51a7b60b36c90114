import FxPulse.Number.Binary
import FxPulse.Number.Word

/-!
# `Number/Ranked.lean` — floats in a total order

Thresholds and probabilities are sorted, so every float needs a place, NaN included. A NaN ranks
above all numbers. A source may also supply a NaN that ranks below them all; floats have only one
NaN, so the low one is a case of its own. Equal zeros are told apart: `-0.0` stands below `0.0`.
-/

set_option autoImplicit false

namespace FxPulse.Number

/-- A float to be ranked, or the NaN that ranks below every number. -/
inductive Ranked where
  | float (x : Float)
  | lowestNaN
deriving DecidableEq, Repr

namespace Ranked

def toFloat : Ranked → Float
  | .float x => x
  | .lowestNaN => 0.0 / 0.0

instance : Coe Float Ranked := ⟨.float⟩

instance : Inhabited Ranked := ⟨.float 0.0⟩

/-- The place in the order. Without their sign, the bits of floats of one sign grow with the
magnitude, and NaN stands past infinity. -/
def key : Ranked → Int
  | .float x =>
    let bits := x.toBits.toNat
    if bits < signedLimit then bits else signedLimit - 1 - (bits : Int)
  | .lowestNaN => -(signedLimit : Int)

def order (a b : Ranked) : Ordering := compare a.key b.key

end Ranked

end FxPulse.Number
