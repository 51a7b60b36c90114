import FxPulse.Market.Quote
import FxPulse.Oscillator.Standing
import FxPulse.Oscillator.Rsi

/-!
# `Oscillator/Basic.lean` — oscillators over any series

An oscillator takes in points one by one. Until it has seen enough of them it answers how many it has
and how many it needs; from then on, with its value, and whether that value is extreme.
-/

set_option autoImplicit false

namespace FxPulse

inductive OscillatorKind where
  | rsi (period : Nat)
  | stochastic (kPeriod dPeriod : Nat)
  | zScore (window : Nat)
  | percentRank (window : Nat)
deriving DecidableEq, Repr

def OscillatorKind.text : OscillatorKind → String
  | .rsi period => "rsi(" ++ toString period ++ ")"
  | .stochastic k d => "stoch(" ++ toString k ++ "," ++ toString d ++ ")"
  | .zScore window => "zscore(" ++ toString window ++ ")"
  | .percentRank window => "prank(" ++ toString window ++ ")"

/-- The capacities of the rings that an oscillator keeps its values in. -/
def OscillatorKind.capacities : OscillatorKind → List Nat
  | .rsi _ => []
  | .stochastic k d => [k, d]
  | .zScore window | .percentRank window => [window]

/-! ## Extremes -/

inductive Zone where
  | overbought
  | oversold
  | neutral
deriving DecidableEq, Repr

/-- Where a value begins to be extreme, above and below; the bounds themselves are. -/
structure Bands where
  overbought : Float
  oversold : Float
deriving DecidableEq, Repr

/-- Bands are the same when their bounds are equal as numbers. A bound that is no number is not even
equal to itself. -/
def Bands.sameAs (a b : Bands) : Bool := a.overbought == b.overbought && a.oversold == b.oversold

/-- The upper bound is asked first. -/
def Bands.zone (b : Bands) (value : Float) : Zone :=
  if value ≥ b.overbought then .overbought
  else if value ≤ b.oversold then .oversold
  else .neutral

/-! ## Output -/

structure Reading where
  ts : Int
  value : Float
  /-- The mean of the latest places of a stochastic oscillator. -/
  signal : Option Float
  zone : Zone
deriving DecidableEq, Repr

inductive OscillatorOutput where
  | insufficient (seen needed : Nat)
  | ready (reading : Reading)
deriving DecidableEq, Repr

/-! ## State -/

/-- What an oscillator keeps of the points it has seen. -/
inductive Oscillator where
  | rsi (state : Rsi)
  | stochastic (state : Stochastic)
  | zScore (state : ZScore)
  | percentRank (state : PercentRank)

namespace Oscillator

def new : OscillatorKind → Oscillator
  | .rsi period => .rsi (Rsi.new period)
  | .stochastic k d => .stochastic (Stochastic.new k d)
  | .zScore window => .zScore (ZScore.new window)
  | .percentRank window => .percentRank (PercentRank.new window)

/-- A new oscillator, if there can be storage for its rings. -/
def make (kind : OscillatorKind) : Except Fault Oscillator :=
  match kind.capacities.find? (Ring.greatestCapacity < ·) with
  | some capacity => .error (.ringTooLarge capacity)
  | none => .ok (new kind)

theorem make_eq_ok_iff {kind : OscillatorKind} {o : Oscillator} :
    make kind = .ok o ↔ (∀ n ∈ kind.capacities, n ≤ Ring.greatestCapacity) ∧ new kind = o := by
  unfold make
  split
  · rename_i capacity found
    have large := List.find?_some found
    have held := List.mem_of_find?_eq_some found
    simp only [reduceCtorEq, false_iff, not_and]
    intro small
    exact absurd (small capacity held) (Nat.not_le_of_lt (of_decide_eq_true large))
  · rename_i none
    rw [List.find?_eq_none] at none
    simp only [decide_eq_true_eq, Nat.not_lt] at none
    simp only [Except.ok.injEq]
    exact ⟨fun same => ⟨none, same⟩, fun both => both.2⟩

/-- The points seen so far, no more than are needed. -/
def seen : Oscillator → Nat
  | .rsi s => s.seen
  | .stochastic s => s.values.size
  | .zScore s => s.values.size
  | .percentRank s => s.values.size

/-- The points needed for the first value. -/
def required : Oscillator → Nat
  | .rsi s => s.required
  | .stochastic s => s.values.capacity
  | .zScore s => s.values.capacity
  | .percentRank s => s.values.capacity

/-- Takes in a value; the answer is the oscillator's value and its signal. -/
def push (o : Oscillator) (x : Float) : Oscillator × Option (Float × Option Float) :=
  match o with
  | .rsi s =>
    let s := s.push x
    (.rsi s, s.value?.map fun v => (v, none))
  | .stochastic s =>
    let (s, answer) := s.push x
    (.stochastic s, answer)
  | .zScore s =>
    let (s, answer) := s.push x
    (.zScore s, answer.map fun v => (v, none))
  | .percentRank s =>
    let (s, answer) := s.push x
    (.percentRank s, answer.map fun v => (v, none))

/-- How far the oscillator is from its first value. -/
def insufficient (o : Oscillator) : OscillatorOutput := .insufficient o.seen o.required

/-- Takes in a point. -/
def update (o : Oscillator) (p : Point) (bands : Bands) : Oscillator × OscillatorOutput :=
  let (next, answer) := o.push p.value
  match answer with
  | some (value, signal) => (next, .ready ⟨p.ts, value, signal, bands.zone value⟩)
  | none => (next, next.insufficient)

end Oscillator

end FxPulse
