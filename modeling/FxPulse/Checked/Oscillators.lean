import FxPulse.Checked.Basic
import FxPulse.Oscillator.Bank

/-!
# `Checked/Oscillators.lean` — rings, oscillators and banks

A ring is read and written at places that are computed modulo its capacity, in a storage that has a
slot for each of them. The oscillators only add a subtraction of one from the number of values in a full
ring, and one to the period of relative strength for the samples it takes.

A bank reads each source on from a cursor, from the place where it goes on among the points it is handed.
-/

set_option autoImplicit false

namespace FxPulse

namespace Ring

/-- The storage of a ring: its slots, and zeros where nothing has been written yet. -/
def buffer (r : Ring) : Array Float :=
  r.slots ++ Array.replicate (r.capacity - r.slots.size) 0.0

/-- The slot of the oldest value. -/
def oldest (r : Ring) : Nat := if r.size < r.capacity then 0 else r.next

end Ring

namespace Checked

open FxPulse.Number

/-! ## Rings -/

def ringPush (r : Ring) (x : Float) : Checked Ring := do
  let _buffer ← write r.buffer r.next x
  let _next ← remainder (r.next + 1) r.capacity
  return r.push x

/-- The values of a ring, slot by slot. -/
def ringValues (r : Ring) : Checked (List Float) :=
  (List.range r.size).mapM fun i => do element r.buffer (← remainder (r.oldest + i) r.capacity)

/-! ## Oscillators -/

def stochasticPush (s : Stochastic) (x : Float) :
    Checked (Stochastic × Option (Float × Option Float)) := do
  let values ← ringPush s.values x
  if values.isFull then
    let place := stochasticOf (← ringValues values) x
    let places ← ringPush s.places place
    let signal ← if places.isFull then some <$> mean <$> ringValues places else pure none
    return (⟨values, places⟩, some (place, signal))
  else
    return (⟨values, s.places⟩, none)

def zScorePush (s : ZScore) (x : Float) : Checked (ZScore × Option Float) := do
  let values ← ringPush s.values x
  if values.isFull then return (⟨values⟩, some (zScoreOf (← ringValues values) x))
  else return (⟨values⟩, none)

/-- The rank of the newest value of a ring among the others, which are all but the last. -/
def percentRank (values : Ring) (x : Float) : Checked Float := do
  let others ← difference values.size 1
  let points := ((← ringValues values).take others).foldl
    (fun points other => rankPoints x other points) 0.0
  return points / others.toFloat * 100.0

def percentRankPush (s : PercentRank) (x : Float) : Checked (PercentRank × Option Float) := do
  let values ← ringPush s.values x
  if values.isFull then return (⟨values⟩, some (← percentRank values x))
  else return (⟨values⟩, none)

def push (o : Oscillator) (x : Float) : Checked (Oscillator × Option (Float × Option Float)) :=
  match o with
  | .rsi s => return (Oscillator.rsi s).push x
  | .stochastic s => do
    let (s, answer) ← stochasticPush s x
    return (.stochastic s, answer)
  | .zScore s => do
    let (s, answer) ← zScorePush s x
    return (.zScore s, answer.map fun v => (v, none))
  | .percentRank s => do
    let (s, answer) ← percentRankPush s x
    return (.percentRank s, answer.map fun v => (v, none))

section Words

variable (b : Build)

/-- The points needed for the first value. -/
def required : Oscillator → Checked Nat
  | .rsi s => count b s.required
  | .stochastic s => return s.values.capacity
  | .zScore s => return s.values.capacity
  | .percentRank s => return s.values.capacity

def insufficient (o : Oscillator) : Checked OscillatorOutput := do
  return .insufficient o.seen (← required b o)

def update (o : Oscillator) (p : Point) (bands : Bands) : Checked (Oscillator × OscillatorOutput) := do
  let (next, answer) ← push o p.value
  match answer with
  | some (value, signal) => return (next, .ready ⟨p.ts, value, signal, bands.zone value⟩)
  | none => return (next, ← insufficient b next)

/-! ## Banks -/

/-- An oscillator that has read nothing. -/
def start (spec : OscillatorSpec) : Checked BankEntry := do
  let state ← Oscillator.make spec.kind
  return ⟨spec, state, none, ← insufficient b state⟩

/-- Adds an oscillator unless the bank holds it, and tells whether it was added. -/
def ensure (bank : Bank) (spec : OscillatorSpec) : Checked (Bank × Bool) := do
  if bank.holds spec then return (bank, false)
  else return (⟨bank.entries ++ [← start b spec]⟩, true)

/-- Adds several, and tells how many were new. -/
def ensureAll (bank : Bank) (specs : List OscillatorSpec) : Checked (Bank × Nat) :=
  specs.foldlM (fun (bank, added) spec => do
      let (bank, isNew) ← ensure b bank spec
      return (bank, if isNew then added + 1 else added))
    (bank, 0)

def take (e : BankEntry) (p : Point) : Checked BankEntry := do
  let (state, output) ← update b e.state p e.spec.bands
  return { e with state, output, cursor := some (Cursor.advance e.cursor p.ts) }

def unread (e : BankEntry) (points : Array Point) : Checked (List Point) := do
  let start := match e.cursor with
    | some c => c.resume points
    | none => 0
  return (← stretch points start points.size).toList

/-- Lets an oscillator read on, and tells how many points it has read. -/
def readOn (e : BankEntry) (provider : Source → Option Int → Checked (Option (Array Point))) :
    Checked (BankEntry × Nat) := do
  match ← provider e.spec.source (e.cursor.map (·.ts)) with
  | some points =>
    let unread ← unread e points
    return (← unread.foldlM (take b) e, unread.length)
  | none => return (e, 0)

def bankRefresh (bank : Bank) (provider : Source → Option Int → Checked (Option (Array Point))) :
    Checked (Bank × Nat) := do
  let reads ← bank.entries.mapM (readOn b · provider)
  return (⟨reads.map (·.1)⟩, reads.foldl (fun total read => total + read.2) 0)

end Words

end Checked

end FxPulse
