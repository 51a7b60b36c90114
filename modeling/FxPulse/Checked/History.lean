import FxPulse.Checked.Basic
import FxPulse.History.TickStore
import FxPulse.Oscillator.Source
import FxPulse.Strength.History

/-!
# `Checked/History.lean` — look-ups by time, and series that forget

A look-up counts the points in front of a time and then steps back by one, or cuts the rest off there. A
series computes from the time of its newest point up to which time it forgets, and that time may lie
further back than a word reaches.

A store is changed where it stands, in several steps: the instrument's entry is made if it is not there,
the point goes to the end of its series, old points go. A refusal can come between any two of them, and
so can a number that no word holds; what has been done by then stays done.
-/

set_option autoImplicit false

namespace FxPulse.Checked

open FxPulse.Number

/-! ## Look-ups -/

section Points

variable (points : Array Point) (ts : Int)

def atOrBefore : Checked (Option Point) := do
  let count := Point.countFront points (· ≤ ts)
  if count = 0 then return points[0]? else return points[← difference count 1]?

def covering : Checked (Option Point) := do
  return (← atOrBefore points ts).filter (·.ts ≤ ts)

def since : Checked (Array Point) := stretch points (Point.countFront points (· < ts)) points.size

def differences (base quote : Array Point) : Checked (Array Point) := do
  let found ← base.toList.mapM fun b => do
    return (← covering quote b.ts).map fun q => (⟨b.ts, b.value - q.value⟩ : Point)
  return (found.filterMap id).toArray

end Points

/-! ## Series -/

variable (b : Build)

def prune (s : Series) (now : Int) : Checked Series := do
  let stale := Series.staleCount s.points (← signed b (now - s.retention))
  let surplus := s.points.size - s.capacity
  return { s with points := s.points.extract (max stale surplus) s.points.size }

/-- What becomes of a series by a point, or why the point is refused. -/
def seriesPush (s : Series) (p : Point) : Checked (Except Regression Series) :=
  match s.latest? with
  | some last =>
    if p.ts < last.ts then return .error ⟨last.ts, p.ts⟩
    else .ok <$> prune b { s with points := s.points.push p } p.ts
  | none => .ok <$> prune b { s with points := s.points.push p } p.ts

/-- Pushes several points, in order; one that is refused leaves the series as it is. -/
def seriesOfferAll (s : Series) (points : List Point) : Checked Series :=
  points.foldlM (fun s p => do return (← seriesPush b s p).toOption.getD s) s

/-- Records one sample; one that lies before the last of its series is passed over. -/
def recordOne (h : StrengthHistory) (ts : Int) (key : StrengthKey) (percent : Float) :
    Checked (StrengthHistory × Bool) := do
  match ← seriesPush b (h.series.getD key (Series.new h.retention seriesCapacity)) ⟨ts, percent⟩ with
  | .ok grown => return ({ h with series := h.series.insert key grown }, true)
  | .error _ => return (h, false)

/-- Records all samples at one time, and tells how many were taken. -/
def record (h : StrengthHistory) (ts : Int) (strengths : Strengths) :
    Checked (StrengthHistory × Nat) :=
  (StrengthHistory.samples strengths).foldlM (fun (h, taken) (key, percent) => do
      let (h, accepted) ← recordOne b h ts key percent
      return (h, if accepted then taken + 1 else taken))
    (h, 0)

/-! ## Stores -/

/-- A push to the series of an instrument where it stands. -/
def pushInPlace (instrument : String) (p : Point) : ExceptT Halt (StateM Series) Unit := do
  if let some last := (← get).latest? then
    if p.ts < last.ts then throw (.failure (.invalidInput instrument (.timeRegressed p.ts last.ts)))
  modify fun s => { s with points := s.points.push p }
  match prune b (← get) p.ts with
  | .ok pruned => set pruned
  | .error halt => throw halt

/-- A quote taken in where the store stands. The series is in the store while the point is pushed to it, so
it is there as the push leaves it, whatever comes of the push. -/
def offer (t : Tick) : ExceptT Halt (StateM TickStore) Point := do
  if !(TickStore.isPrice t.bid && TickStore.isPrice t.ask) then
    throw (.failure (.invalidInput t.instrument (.badPrices t.bid t.ask)))
  modify (·.entered t.instrument)
  let s ← get
  let (answer, series) :=
    (pushInPlace b t.instrument ⟨t.ts, t.mid⟩).run.run (s.seriesOf t.instrument)
  set (s.withSeries t.instrument series)
  match answer with
  | .ok () => return ⟨t.ts, t.mid⟩
  | .error halt => throw halt

/-- Many quotes, each in its turn, and what comes of each. -/
def offerAll (calls : List Tick) : StateM TickStore (List (Checked Point)) :=
  calls.mapM fun t => (offer b t).run

end FxPulse.Checked
