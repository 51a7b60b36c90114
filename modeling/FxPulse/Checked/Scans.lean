import FxPulse.Checked.Bursts
import FxPulse.Checked.States
import FxPulse.Scan.Basic

/-!
# `Checked/Scans.lean` — scans over any bars

A scan looks back among the bars before a place, and ahead to the last bar within a horizon, which is
found by counting the bars that are not after it and stepping back by one. Labels are listed once, and
looked up by the places of triggers and outcomes.
-/

set_option autoImplicit false

namespace FxPulse.Checked

open FxPulse.Number FxPulse.Scan

/-! ## Looking back -/

def reference (closings : Array Point) (i : Nat) (ts : Int) : Checked (Option Point) := do
  let earlier ← stretch closings 0 i
  match Point.countFront earlier (· ≤ ts) with
  | 0 => return none
  | count + 1 => return some (← element closings count)

section Back

variable (b : Build) (s : ScanSettings)

/-- The burst of one trigger at place `i`. -/
def burst (closings : Array Point) (pip : Float) (i : Nat) (trigger : Trigger) :
    Checked (Option Burst) := do
  let current ← element closings i
  match ← reference closings i (← target b trigger current.ts) with
  | some reference => between b current reference pip s.gap trigger
  | none => return none

/-- The bursts at place `i`, each with the place of its trigger. -/
def fired (closings : Array Point) (pip : Float) (i : Nat) : Checked (List (Nat × Burst)) := do
  let answers ← s.triggers.zipIdx.mapM fun (trigger, place) => do
    return (← burst b s closings pip i trigger).map fun burst => (place, burst)
  return answers.filterMap id

def triggersAt (bars : Array Bar) (i : Nat) (pip : Float) : Checked (List (Burst × StateKey)) := do
  let head ← stretch bars 0 (i + 1)
  let fired ← fired b s (head.map Bar.closing) pip i
  if fired.isEmpty then return []
  let state ← compute b s.state (head.map (·.close))
  return fired.map fun (_, burst) => (burst, state)

end Back

/-! ## Looking ahead -/

def ahead (b : Build) (bars : Array Bar) (closings : Array Point) (i : Nat) (outcome : Outcome) :
    Checked (Option Extremes) := do
  let current ← element closings i
  match closings.back? with
  | none => return none
  | some last =>
    let limit ← signed b (current.ts + (← horizon b outcome))
    if limit > last.ts then return none
    let final ← difference (Point.countFront closings (· ≤ limit)) 1
    if final ≤ i then return none
    let within := (← stretch bars (i + 1) (final + 1)).toList
    return some ⟨greatest (within.map (·.high)), least (within.map (·.low))⟩

/-! ## Cases -/

section Cases

variable (s : ScanSettings) (closings : Array Point) (pip : Float) (i : Nat)

def triggerLabels : Array String := (s.triggers.map Trigger.label).toArray

def outcomeLabels : Array String := (s.outcomes.map Outcome.label).toArray

/-- The cases of one burst for one outcome. -/
def casesOf (levels : List StateKey) (extremes : Array (Option Extremes)) (fired : Nat × Burst)
    (outcome : Outcome × Nat) : Checked (List Sample) := do
  match ← element extremes outcome.2 with
  | none => return []
  | some e =>
    let close := (← element closings i).value
    let success := outcome.1.reachedBy (e.excursion close fired.2.direction / pip)
    levels.mapM fun level => do
      let trigger ← element (triggerLabels s) fired.1
      let outcome ← element (outcomeLabels s) outcome.2
      return ⟨⟨trigger, outcome, fired.2.direction, level⟩, success⟩

/-- The cases of one burst. -/
def samplesOf (levels : List StateKey) (extremes : Array (Option Extremes)) (fired : Nat × Burst) :
    Checked (List Sample) := do
  return (← s.outcomes.zipIdx.mapM (casesOf s closings pip i levels extremes fired)).flatten

/-- The levels of a state that are counted. -/
def counted (state : StateKey) : Checked (List StateKey) :=
  if s.relaxed then levels state else return [state]

def casesAt (b : Build) (bars : Array Bar) : Checked (Nat × List Sample) := do
  let fired ← fired b s closings pip i
  if fired.isEmpty then return (0, [])
  let closes ← stretch (closings.map (·.value)) 0 (i + 1)
  let state ← compute b s.state closes
  let levels ← counted s state
  let extremes := (← s.outcomes.mapM (ahead b bars closings i)).toArray
  let samples ← fired.mapM (samplesOf s closings pip i levels extremes)
  return (fired.length, samples.flatten)

end Cases

/-! ## Scans -/

def barBefore (bars : Array Bar) (i : Nat) : Checked (Option Bar) :=
  if i = 0 then return none else return some (← element bars (← difference i 1))

/-- Goes through the bars from place `i` on, looking back to the bar before. -/
def validateFrom (symbol : String) (bars : Array Bar) (i : Nat) : List Bar → Checked Unit
  | [] => .ok ()
  | bar :: rest => do
    match defect? (← barBefore bars i) bar with
    | some defect => .error (.failure (.scanAborted symbol i defect))
    | none => validateFrom symbol bars (i + 1) rest

section Scans

variable (b : Build) (s : ScanSettings) (cancelled : Nat → Bool)

def step (bars : Array Bar) (closings : Array Point) (pip : Float) (scan : InstrumentScan) (i : Nat) :
    Checked InstrumentScan := do
  if (← remainder i checkEvery) = 0 && cancelled i then
    .error (.failure (.cancelled scan.symbol))
  else
    let (fired, samples) ← casesAt s closings pip i b bars
    return { scan with fired := scan.fired + fired, tally := scan.tally.addAll samples }

def run (symbol : String) (bars : Array Bar) (pip : Float) : Checked InstrumentScan := do
  validateFrom symbol bars 0 bars.toList
  let closings := bars.map Bar.closing
  (List.range bars.size).foldlM (step b s cancelled bars closings pip) ⟨symbol, bars.size, 0, ∅⟩

end Scans

end FxPulse.Checked
