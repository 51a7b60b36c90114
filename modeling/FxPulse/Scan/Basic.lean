import FxPulse.Burst.Basic
import FxPulse.History.Search
import FxPulse.Number.Sample
import FxPulse.State.Spec
import FxPulse.Table.Row

/-!
# `Scan/Basic.lean` — how often a burst was followed up

A scan goes through the bars of an instrument one by one. At each bar it asks which triggers fire,
looking back from the close; for each of them it asks of each outcome whether the bars within the
horizon reach the target, looking ahead; and it counts the answers by the state of the market at the
bar. A horizon that runs past the last bar, or that holds no bar, is no case at all.

The look back and the state see the bars up to the current one and nothing behind it.

Times are whole numbers of any size here. `Checked/Scans.lean` is the scan in words.
-/

set_option autoImplicit false

namespace FxPulse

open FxPulse.Number

structure ScanSettings where
  triggers : List Trigger
  outcomes : List Outcome
  state : StateSpec
  alpha : Float
  gap : Int
  /-- Whether each case also counts for all coarser states. -/
  relaxed : Bool
deriving Repr

/-- A scan, complete or as far as it has got. -/
structure InstrumentScan where
  symbol : String
  bars : Nat
  fired : Nat
  tally : Tally

namespace InstrumentScan

/-- The rows of a scan, in the order of their keys. -/
def rows (s : InstrumentScan) (alpha : Float) : List Row :=
  s.tally.toList.map fun (key, counts) => Row.ofCounts s.symbol alpha key counts

end InstrumentScan

namespace Scan

/-! ## Bars that can be scanned -/

/-- What is wrong with a bar that follows another one, or none. -/
def defect? (previous : Option Bar) (bar : Bar) : Option BarDefect :=
  if bar.prices.any fun p => !p.isFinite || p ≤ 0.0 then some (.badPrices bar.prices)
  else
    match previous with
    | some p => if bar.ts ≤ p.ts then some (.notAfter bar.ts p.ts) else none
    | none => none

/-- Goes through the bars from place `i` on. -/
def validateFrom (symbol : String) (i : Nat) (previous : Option Bar) : List Bar → Except Failure Unit
  | [] => .ok ()
  | bar :: rest =>
    match defect? previous bar with
    | some defect => .error (.scanAborted symbol i defect)
    | none => validateFrom symbol (i + 1) (some bar) rest

/-- Every price is finite and positive, and time goes forward from bar to bar. The first bar that is
not so is named. -/
def validate (symbol : String) (bars : Array Bar) : Except Failure Unit :=
  validateFrom symbol 0 none bars.toList

/-! ## Looking back -/

/-- The last of the first `i` points that is not after `ts`. -/
def reference? (closings : Array Point) (i : Nat) (ts : Int) : Option Point :=
  match Point.countBefore closings i (· ≤ ts) with
  | 0 => none
  | count + 1 => closings[count]?

/-- The bursts at place `i`, in the order of the triggers. -/
def burstsAt (s : ScanSettings) (closings : Array Point) (pip : Float) (i : Nat) : List Burst :=
  match closings[i]? with
  | none => []
  | some current =>
    s.triggers.filterMap fun trigger => do
      let reference ← reference? closings i (current.ts - trigger.window)
      Burst.between? current reference pip s.gap trigger

/-- The state at place `i`. No more closes are handed over than the state looks back on. -/
def stateAt (s : ScanSettings) (closings : Array Point) (i : Nat) : Except Fault StateKey :=
  s.state.compute ((closings.extract (i + 1 - s.state.lookback) (i + 1)).map (·.value))

/-- The bursts at bar `i`, each with the state at that bar. -/
def triggersAt (s : ScanSettings) (bars : Array Bar) (i : Nat) (pip : Float) :
    Except Fault (List (Burst × StateKey)) :=
  if bars.size ≤ i then .error (.noSuchBar i)
  else do
    let closings := bars.map Bar.closing
    let bursts := burstsAt s closings pip i
    if bursts.isEmpty then return []
    let state ← stateAt s closings i
    return bursts.map fun burst => (burst, state)

/-! ## Looking ahead -/

/-- The greatest high and the least low of a stretch of bars. -/
structure Extremes where
  high : Float
  low : Float
deriving DecidableEq, Repr

/-- How far the price went in a direction, starting from a close. -/
def Extremes.excursion (e : Extremes) (close : Float) : Direction → Float
  | .up => e.high - close
  | .down => close - e.low

/-- The extremes of the bars behind place `i` up to the horizon, if there are any and the data
reaches that far. -/
def ahead? (bars : Array Bar) (closings : Array Point) (i : Nat) (outcome : Outcome) :
    Except Fault (Option Extremes) :=
  match closings[i]?, closings.back? with
  | some current, some last =>
    let horizon := current.ts + outcome.horizon
    if horizon > last.ts then .ok none
    else
      match Point.countFront closings (· ≤ horizon) with
      -- Only a horizon that looks back can end before the first bar.
      | 0 => .error (.horizonBeforeBars i)
      | final + 1 =>
        if final ≤ i then .ok none
        else
          let stretch := (bars.extract (i + 1) (final + 1)).toList
          .ok (some ⟨greatest (stretch.map (·.high)), least (stretch.map (·.low))⟩)
  | _, _ => .ok none

/-! ## Cases -/

/-- The cases that one burst makes: one for each outcome whose horizon can be judged and each level
of the state. -/
def samplesOf (burst : Burst) (close pip : Float) (levels : List StateKey)
    (outcomes : List (Outcome × Option Extremes)) : List Sample :=
  outcomes.flatMap fun (outcome, extremes) =>
    match extremes with
    | none => []
    | some e =>
      let success := outcome.reachedBy (e.excursion close burst.direction / pip)
      levels.map fun level =>
        ⟨⟨burst.trigger.label, outcome.label, burst.direction, level⟩, success⟩

/-- What a bar contributes: the number of its bursts, and their cases. -/
def casesAt (s : ScanSettings) (bars : Array Bar) (closings : Array Point) (pip : Float) (i : Nat) :
    Except Fault (Nat × List Sample) := do
  let bursts := burstsAt s closings pip i
  match bursts, bars[i]? with
  | _ :: _, some bar =>
    -- The state and the bars ahead are the same for all bursts of a bar, and asked for only now.
    let state ← stateAt s closings i
    let levels := if s.relaxed then state.levels else [state]
    let outcomes ← s.outcomes.mapM fun o => do return (o, ← ahead? bars closings i o)
    return (bursts.length, bursts.flatMap fun b => samplesOf b bar.close pip levels outcomes)
  | _, _ => return (0, [])

/-- Bars between two looks at whether the scan has been called off. -/
def checkEvery : Nat := 4096

/-- Takes in bar `i`. `cancelled i` is what a look before bar `i` would see. -/
def step (s : ScanSettings) (cancelled : Nat → Bool) (bars : Array Bar) (closings : Array Point)
    (pip : Float) (scan : InstrumentScan) (i : Nat) : Except Failure InstrumentScan := do
  if i % checkEvery = 0 && cancelled i then throw (.cancelled scan.symbol)
  let (fired, samples) ← casesAt s bars closings pip i
  return { scan with fired := scan.fired + fired, tally := scan.tally.addAll samples }

/-- The scan of one instrument. -/
def run (s : ScanSettings) (cancelled : Nat → Bool) (symbol : String) (bars : Array Bar)
    (pip : Float) : Except Failure InstrumentScan := do
  validate symbol bars
  let closings := bars.map Bar.closing
  (List.range bars.size).foldlM (step s cancelled bars closings pip) ⟨symbol, bars.size, 0, ∅⟩

/-! ## Several instruments -/

structure Job where
  symbol : String
  bars : Array Bar
  pip : Float

/-- Scans each instrument for itself, so that a fault in one job is no fault of the others. A job that
has been called off before it starts looks at nothing. -/
def runAll (s : ScanSettings) (calledOff : Bool) (jobs : List Job) :
    List (String × Except Failure InstrumentScan) :=
  jobs.map fun job =>
    (job.symbol,
      if calledOff then .error (.cancelled job.symbol)
      else (run s (fun _ => calledOff) job.symbol job.bars job.pip).mapError Failure.ofJob)

end Scan

end FxPulse
