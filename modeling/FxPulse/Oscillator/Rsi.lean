import FxPulse.Number.Sample

/-!
# `Oscillator/Rsi.lean` — relative strength

The index weighs the average gain of a series against its average loss, on a scale from 0 to 100. The
first averages are plain means over one period of changes; from then on each change is blended into
them with weight one over the period. A series that never falls stands at 100, even if it never
moves. Values that are not finite are no samples and change nothing.

The number of samples needed is a number of any size here. `Checked/Oscillators.lean` counts in words.
-/

set_option autoImplicit false

namespace FxPulse

open FxPulse.Number

/-- Gains and losses so far: summed up until there are enough, then averaged. -/
inductive RsiPhase where
  | seeding (gains losses : Float) (changes : Nat)
  | running (gain loss : Float)
deriving DecidableEq, Repr

structure Rsi where
  period : Nat
  previous : Option Float
  phase : RsiPhase
deriving DecidableEq, Repr

namespace Rsi

/-- A period is at least one change long. -/
def new (period : Nat) : Rsi := ⟨max period 1, none, .seeding 0.0 0.0 0⟩

/-- The samples that the first value takes: a period of changes and the sample they start from. -/
def required (r : Rsi) : Nat := r.period + 1

/-- The samples seen, as far as they count towards the first value. -/
def seen (r : Rsi) : Nat :=
  (match r.phase with
    | .seeding _ _ changes => changes
    | .running _ _ => r.period)
  + (if r.previous.isSome then 1 else 0)

def value? (r : Rsi) : Option Float :=
  match r.phase with
  | .seeding _ _ _ => none
  | .running gain loss =>
    if loss == 0.0 then some 100.0
    else some (100.0 - 100.0 / (1.0 + gain / loss))

/-- Takes in one change, split into what was gained and what was lost. -/
def RsiPhase.change (period : Nat) (gain loss : Float) : RsiPhase → RsiPhase
  | .running averageGain averageLoss =>
    let p := period.toFloat
    .running ((averageGain * (p - 1.0) + gain) / p) ((averageLoss * (p - 1.0) + loss) / p)
  | .seeding gains losses changes =>
    let gains := gains + gain
    let losses := losses + loss
    if changes + 1 < period then .seeding gains losses (changes + 1)
    else .running (gains / period.toFloat) (losses / period.toFloat)

/-- Takes in one sample. -/
def push (r : Rsi) (x : Float) : Rsi :=
  if !x.isFinite then r
  else
    match r.previous with
    | none => { r with previous := some x }
    | some previous =>
      let change := x - previous
      { r with
        previous := some x
        phase := RsiPhase.change r.period (greater change 0.0) (greater (-change) 0.0) r.phase }

/-- The index at the end of a series; a series with no values has none. -/
def ofValues? (values : List Float) (period : Nat) : Option Float :=
  (values.foldl push (new period)).value?

end Rsi

end FxPulse
