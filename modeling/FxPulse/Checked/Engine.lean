import FxPulse.Checked.Config
import FxPulse.Checked.History
import FxPulse.Checked.Matching
import FxPulse.Checked.Oscillators
import FxPulse.Engine.Basic

/-!
# `Checked/Engine.lean` — what an engine does

Percent changes, strengths, the sources of oscillators, matching and refreshing, down to the look-ups,
rings and states that they consist of, and the calls that an engine is there to answer.
-/

set_option autoImplicit false

namespace FxPulse

/-- What an engine can be asked. Taking in a tick and going over to other rows change it and so does a
refresh; the others only look. -/
inductive Call where
  | ingest (t : Tick)
  | refresh (watch : Stopwatch)
  | setTable (rows : List Row)
  | edge (instrument : String)
  | percentChange (instrument : String)
  | strength

inductive Answer where
  | ingested (result : Except Failure Point)
  | refreshed (summary : RefreshSummary)
  | tableSet
  | edge (found : EdgeMatch)
  | changes (result : Except Failure Changes)
  | strengths (found : Strengths)

namespace Engine

def call (e : Engine) : Call → Except Fault (Engine × Answer)
  | .ingest t => return ((e.ingest t).1, .ingested (e.ingest t).2)
  | .refresh watch => do
    let (after, summary) ← e.refresh watch
    return (after, .refreshed summary)
  | .setTable rows => return (e.setTable (Table.ofRows rows), .tableSet)
  | .edge instrument => do return (e, .edge (← e.edge instrument))
  | .percentChange instrument => return (e, .changes (e.percentChange instrument))
  | .strength => return (e, .strengths e.strength)

def callAll (e : Engine) : List Call → Except Fault (Engine × List Answer)
  | [] => return (e, [])
  | call :: rest => do
    let (mid, answer) ← e.call call
    let (after, answers) ← mid.callAll rest
    return (after, answer :: answers)

end Engine

namespace Checked

open FxPulse.Number

variable (b : Build)

/-! ## Percent changes and strengths -/

/-- Measures the change over one window, and enters it. -/
def measureOne (points : Array Point) (current : Point) (changes : Changes) (w : Window) :
    Checked Changes := do
  let target ← signed b (current.ts - w.length)
  match (← atOrBefore points target).bind (Changes.percent? current) with
  | some percent => return changes.insert w.label percent
  | none => return changes

def changesOf (points : Array Point) (windows : List Window) : Checked Changes :=
  match points.back? with
  | some current => windows.foldlM (measureOne b points current) ∅
  | none => return ∅

def changes (s : TickStore) (windows : List Window) (instrument : String) : Checked Changes :=
  match s.read? instrument with
  | some series => changesOf b series.points windows
  | none => return ∅

def votes (currencies : List String) (instrument : String) (changes : Changes) :
    Checked (Option (List (String × Changes))) := do
  match ← pairOf instrument with
  | some pair =>
    return if pair.within currencies then some [(pair.base, changes), (pair.quote, changes.negate)]
      else none
  | none => return none

def strength (e : Engine) : Checked Strengths := do
  let votes ← e.store.instruments.mapM fun i => do
    votes e.currencies i (← changes b e.store e.windows i)
  return ((votes.filterMap id).flatten.foldl Polls.count ∅).filterMap fun _ own =>
    let means := Poll.means own
    if means.isEmpty then none else some means

def percentChange (e : Engine) (instrument : String) : Checked (Except Failure Changes) :=
  match e.store.latest instrument with
  | .ok _ => .ok <$> changes b e.store e.windows instrument
  | .error cause => return .error cause

/-! ## Sources and series -/

/-- What an instrument adds to the sources. -/
def pairSources (e : Engine) (instrument : String) : Checked (List Source) := do
  match ← pairOf instrument with
  | some pair =>
    return if pair.within e.currencies then
        [.price instrument, .differential pair.base pair.quote e.oscillators.window]
      else []
  | none => return []

def specs (e : Engine) : Checked (List OscillatorSpec) := do
  let pairs ← e.store.instruments.mapM (pairSources e)
  let sources := (e.currencies.map fun c => .strength c e.oscillators.window) ++ pairs.flatten
  return sources.flatMap fun source =>
    (Engine.kinds e.oscillators).map fun (kind, bands) => ⟨source, kind, bands⟩

/-- The points of a series from a time on, or all of them. -/
def pointsOf (points : Array Point) (start : Option Int) : Checked (Array Point) :=
  match start with
  | some ts => since points ts
  | none => return points

def strengthPoints (e : Engine) (currency window : String) (start : Option Int) :
    Checked (Option (Array Point)) :=
  match e.strengthHistory.read? ⟨currency, window⟩ with
  | some series => some <$> pointsOf series.points start
  | none => return none

def series (e : Engine) (source : Source) (start : Option Int) : Checked (Option (Array Point)) := do
  match source with
  | .price instrument =>
    match e.store.read? instrument with
    | some series => some <$> pointsOf series.points start
    | none => return none
  | .strength currency window => strengthPoints e currency window start
  | .differential base quote window =>
    match ← strengthPoints e base window start, ← strengthPoints e quote window start with
    | some base, some quote =>
      let points ← differences base quote
      return if points.isEmpty then none else some points
    | _, _ => return none

/-! ## Calls -/

/-- A new engine for a configuration in words. -/
def newEngine (c : Config) (table : Table) : Checked Engine := do
  let retention ← retention b c
  return {
    Engine.new c table with
    store := TickStore.new retention
    strengthHistory := StrengthHistory.new retention }

/-- Takes in one tick. A tick that is refused is counted. -/
def ingest (e : Engine) (t : Tick) : Checked (Engine × Except Failure Point) :=
  let (answer, store) := (offer b t).run.run e.store
  match answer with
  | .ok point => return ({ e with store, health := e.health.accept point.ts }, .ok point)
  | .error (.failure cause) => return ({ e with store, health := e.health.reject }, .error cause)
  | .error (.breach cause) => .error (.breach cause)

def sampleStrength (e : Engine) : Checked (Engine × Nat) :=
  match e.dataTime? with
  | some ts =>
    if e.isDue ts then do
      let (strengthHistory, taken) ← record b e.strengthHistory ts (← strength b e)
      return ({ e with strengthHistory, sampledAt := some ts }, taken)
    else return (e, 0)
  | none => return (e, 0)

def edge (e : Engine) (instrument : String) : Checked EdgeMatch :=
  matchEdge b e.edgeSettings e.store e.table instrument

def refresh (e : Engine) (watch : Stopwatch) : Checked (Engine × RefreshSummary) := do
  let instruments := e.store.instruments
  let (e, strengthSamples) ← sampleStrength b e
  let specs ← specs e
  let (bank, oscillatorsAdded) ← ensureAll b e.bank specs
  let (bank, pointsConsumed) ← bankRefresh b bank (series e)
  let found ← instruments.mapM fun i => do return (i, ← edge b e i)
  let refreshed :=
    { e with
      bank
      published := bank.readings.foldl Engine.publish e.published
      edges := found.foldl (fun edges (i, edge) => edges.insert i edge) e.edges
      latency := e.latency.recordMicros watch.micros
      health := e.health.refreshedAt watch.finishedAt }
  let edgesMatched := (found.filter fun (_, edge) => edge.isMatched).length
  return (refreshed,
    ⟨instruments.length, strengthSamples, oscillatorsAdded, pointsConsumed, edgesMatched⟩)

/-- A table is indexed as it is made; there is nothing to check in that. -/
def call (e : Engine) : Call → Checked (Engine × Answer)
  | .ingest t => do
    let (after, result) ← ingest b e t
    return (after, .ingested result)
  | .refresh watch => do
    let (after, summary) ← refresh b e watch
    return (after, .refreshed summary)
  | .setTable rows => return (e.setTable (Table.ofRows rows), .tableSet)
  | .edge instrument => do return (e, .edge (← edge b e instrument))
  | .percentChange instrument => do return (e, .changes (← percentChange b e instrument))
  | .strength => do return (e, .strengths (← strength b e))

def callAll (e : Engine) : List Call → Checked (Engine × List Answer)
  | [] => return (e, [])
  | first :: rest => do
    let (mid, answer) ← call b e first
    let (after, answers) ← callAll mid rest
    return (after, answer :: answers)

end Checked

end FxPulse
