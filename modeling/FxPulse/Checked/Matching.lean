import FxPulse.Checked.Bursts
import FxPulse.Checked.History
import FxPulse.Checked.States
import FxPulse.Edge.Match

/-!
# `Checked/Matching.lean` — what history says about now

The bursts at the end of a series, the state of the market there, and the row of the table that describes
the moment best. How many closes the state looks back on is computed before anything else is looked at.
-/

set_option autoImplicit false

namespace FxPulse.Checked

open FxPulse.Number

def candidates (t : Table) (slot : Slot) : Checked (List Row) :=
  (t.index.getD slot #[]).toList.mapM (element t.rows)

/-- The attempts for one burst. -/
def attemptsOf (t : Table) (symbol : String) (levels : List StateKey) (burst : Burst) :
    Checked (List Attempt) := do
  let candidates ← candidates t ⟨symbol, burst.trigger.label, burst.direction⟩
  return levels.map fun level => ⟨burst, level, eligible candidates level⟩

section Words

variable (b : Build) (s : EdgeSettings)

/-- The burst of one trigger at the end of a series. -/
def liveBurst (points : Array Point) (pip : Float) (current : Point) (trigger : Trigger) :
    Checked (Option Burst) := do
  match ← covering points (← target b trigger current.ts) with
  | some reference => between b current reference pip s.gap trigger
  | none => return none

def firedBy (series : Series) (pip : Float) : Checked (List Burst) :=
  match series.latest? with
  | some current => do
    return (← s.triggers.mapM (liveBurst b s series.points pip current)).filterMap id
  | none => return []

def matchEdge (store : TickStore) (t : Table) (instrument : String) : Checked EdgeMatch := do
  let pip ← pip s.pips instrument
  let lookback ← lookback b s.state
  match store.read? instrument with
  | none => return .noMatch .noHistory
  | some series =>
    let bursts ← firedBy b s series pip
    if bursts.isEmpty then return .noMatch .noTrigger
    let closes := recentMinuteCloses series.points lookback
    let state ← compute b s.state closes.toArray
    let levels ← levels state
    let attempts ← bursts.mapM (attemptsOf t instrument levels)
    return settle s.minTotal state none attempts.flatten

end Words

end FxPulse.Checked
