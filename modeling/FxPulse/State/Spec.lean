import FxPulse.Oscillator.Rsi
import FxPulse.State.Key

/-!
# `State/Spec.lean` — the state of the market, out of its closes

Two things are asked of the closes up to now: in which tenth of its scale relative strength stands,
and whether the last few changes vary less or more than the longer run of them. Both look at a
limited stretch of closes, and answer `na` where there are not enough.

How many closes that is may be any number here. `Checked/States.lean` counts them in words.
-/

set_option autoImplicit false

namespace FxPulse

open FxPulse.Number

structure StateSpec where
  rsiPeriod : Option Nat
  /-- A short and a long window of changes. -/
  volatility : Option (Nat × Nat)
deriving DecidableEq, Repr, Inhabited

namespace StateSpec

/-- Relative strength starts afresh this many periods back. -/
def rsiPeriods : Nat := 4

/-- Below this ratio of short to long deviation the market is calm. -/
def calmBelow : Float := 0.8

/-- From this ratio on it is agitated. -/
def agitatedFrom : Float := 1.25

/-- The text of what cannot be known yet. -/
def unknown : String := "na"

/-- The last `n` closes. -/
def tail (closes : Array Float) (n : Nat) : List Float :=
  (closes.extract (closes.size - n) closes.size).toList

/-- The tenth of the scale, the top of the scale belonging to the last one. -/
def tenth (rsi : Float) : Nat := min (rsi / 10.0).toUInt8.toNat 9

/-- The closes that relative strength is computed from. -/
def rsiCloses (period : Nat) : Nat := period * rsiPeriods + 1

def rsiValue (closes : Array Float) (period : Nat) : String :=
  let need := rsiCloses period
  if closes.size < need then unknown
  else
    match Rsi.ofValues? (tail closes need) period with
    | some rsi => toString (tenth rsi)
    | none => unknown

/-- The steps from each value to the next. -/
def steps (values : List Float) : List Float :=
  (values.zip (values.drop 1)).map fun (a, b) => b - a

/-- What a ratio of deviations says. -/
def regime (shortRun longRun : Float) : String :=
  if longRun == 0.0 then "normal"
  else
    let ratio := shortRun / longRun
    if ratio < calmBelow then "low"
    else if ratio ≥ agitatedFrom then "high"
    else "normal"

def volatilityValue (closes : Array Float) (short long : Nat) : Except Fault String :=
  if closes.size < long + 1 then .ok unknown
  else if long < short then .error (.shortWindowTooLong short long)
  else
    let changes := steps (tail closes (long + 1))
    .ok (regime (deviation (changes.drop (changes.length - short))) (deviation changes))

/-- The closes from which every part of the key is known. -/
def lookback (s : StateSpec) : Nat :=
  let rsi := match s.rsiPeriod with
    | some period => rsiCloses period
    | none => 0
  let volatility := match s.volatility with
    | some (_, long) => long + 1
    | none => 0
  max rsi volatility

/-- The state after a series of closes. -/
def compute (s : StateSpec) (closes : Array Float) : Except Fault StateKey := do
  let key := match s.rsiPeriod with
    | some period => StateKey.empty.push "rsi" (rsiValue closes period)
    | none => StateKey.empty
  match s.volatility with
  | some (short, long) => return key.push "vol" (← volatilityValue closes short long)
  | none => return key

end StateSpec

end FxPulse
