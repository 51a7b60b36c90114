import FxPulse.Number.Sample
import FxPulse.Oscillator.Ring

/-!
# `Oscillator/Standing.lean` — measures of the newest value in its window

Three measures of where the newest value stands among the last few: between the extremes
(stochastic), in standard deviations from the mean (z-score), and by how many others lie below it
(percent rank). Each is a function of the values in the window; what is kept between values is the
window.
-/

set_option autoImplicit false

namespace FxPulse

open FxPulse.Number

/-! ## Stochastic -/

/-- The place of `x` between the least and the greatest value, in percent; half way if they are the
same. -/
def stochasticOf (window : List Float) (x : Float) : Float :=
  let low := least window
  let high := greatest window
  if high > low then (x - low) / (high - low) * 100.0 else 50.0

/-- The window of values, and the window of their places that is averaged for the signal. -/
structure Stochastic where
  values : Ring
  places : Ring

namespace Stochastic

def new (kPeriod dPeriod : Nat) : Stochastic := ⟨Ring.new kPeriod, Ring.new dPeriod⟩

/-- Takes in a value. Once the window is full there is a place, and once enough places are known
there is their mean as a signal. -/
def push (s : Stochastic) (x : Float) : Stochastic × Option (Float × Option Float) :=
  let values := s.values.push x
  if values.isFull then
    let place := stochasticOf values.toList x
    let places := s.places.push place
    (⟨values, places⟩, some (place, if places.isFull then some (mean places.toList) else none))
  else
    (⟨values, s.places⟩, none)

end Stochastic

/-! ## Z-score -/

/-- The distance of `x` from the mean in standard deviations, zero where nothing deviates. -/
def zScoreOf (window : List Float) (x : Float) : Float :=
  let spread := deviation window
  if spread == 0.0 then 0.0 else (x - mean window) / spread

structure ZScore where
  values : Ring

namespace ZScore

/-- A window of at least two values. -/
def new (window : Nat) : ZScore := ⟨Ring.new (max window 2)⟩

def push (s : ZScore) (x : Float) : ZScore × Option Float :=
  let values := s.values.push x
  (⟨values⟩, if values.isFull then some (zScoreOf values.toList x) else none)

end ZScore

/-! ## Percent rank -/

/-- What one other value adds to the rank of `x`: one if it lies below, a half if it is equal. -/
def rankPoints (x other : Float) (points : Float) : Float :=
  if other < x then points + 1.0
  else if other == x then points + 0.5
  else points

/-- The share of the other values that lie below the newest, in percent. -/
def percentRankOf (window : List Float) (x : Float) : Float :=
  let others := window.dropLast
  others.foldl (fun points other => rankPoints x other points) 0.0 / others.length.toFloat * 100.0

structure PercentRank where
  values : Ring

namespace PercentRank

/-- A window of at least two values. -/
def new (window : Nat) : PercentRank := ⟨Ring.new (max window 2)⟩

def push (s : PercentRank) (x : Float) : PercentRank × Option Float :=
  let values := s.values.push x
  (⟨values⟩, if values.isFull then some (percentRankOf values.toList x) else none)

end PercentRank

end FxPulse
