import FxPulse.Archive.Basic
import FxPulse.Config.Basic
import FxPulse.Edge.Match
import FxPulse.Engine.Health
import FxPulse.Engine.Latency
import FxPulse.Oscillator.Bank
import FxPulse.Strength.History
import FxPulse.Wire.Write

/-!
# `Engine/Basic.lean` — the live engine

Ticks come in at any time and only fill the tick store. Everything derived from them is brought up to
date by a refresh: currency strengths are sampled when time has moved on in the data, oscillators are
set up for what is new and read on, and every instrument is matched against the table of
probabilities. What a refresh has found out is published until the next one.
-/

set_option autoImplicit false

namespace FxPulse

/-- The last output of an oscillator. -/
structure PublishedOscillator where
  label : String
  source : Source
  kind : OscillatorKind
  output : OscillatorOutput
deriving DecidableEq, Repr

def PublishedOscillator.toJson (p : PublishedOscillator) : Json :=
  .record [("label", .str p.label), ("source", p.source.toJson), ("kind", p.kind.toJson),
    ("output", p.output.toJson)]

/-- What a refresh did. -/
structure RefreshSummary where
  instruments : Nat
  strengthSamples : Nat
  oscillatorsAdded : Nat
  pointsConsumed : Nat
  edgesMatched : Nat
deriving DecidableEq, Repr, Inhabited

/-- When a refresh was finished, and how many microseconds it took. -/
structure Stopwatch where
  finishedAt : Int
  micros : Nat
deriving DecidableEq, Repr, Inhabited

structure Engine where
  windows : List Window
  currencies : List String
  oscillators : OscillatorSettings
  edgeSettings : EdgeSettings
  store : TickStore
  strengthHistory : StrengthHistory
  /-- The time in the data of the last sample of strengths. -/
  sampledAt : Option Int
  bank : Bank
  published : Std.ExtTreeMap String PublishedOscillator
  edges : Std.ExtTreeMap String EdgeMatch
  table : Table
  health : Health
  latency : Latency

namespace Engine

def new (c : Config) (table : Table) : Engine where
  windows := c.windows
  currencies := c.currencies
  oscillators := c.oscillators
  edgeSettings := c.edge
  store := TickStore.new c.retention
  strengthHistory := StrengthHistory.new c.retention
  sampledAt := none
  bank := ∅
  published := ∅
  edges := ∅
  table := table
  health := Health.new.withTable table.size
  latency := Latency.new

/-! ## Coming in -/

/-- Takes in one tick. A tick that is refused is counted. -/
def ingest (e : Engine) (t : Tick) : Engine × Except Failure Point :=
  match e.store.add t with
  | .ok (store, point) => ({ e with store, health := e.health.accept point.ts }, .ok point)
  | .error cause => ({ e with health := e.health.reject }, .error cause)

/-- Takes in several ticks; a refused one does not keep the others out. -/
def ingestAll (e : Engine) (ticks : List Tick) : Engine :=
  ticks.foldl (fun e t => (e.ingest t).1) e

/-- Goes over to another table. -/
def setTable (e : Engine) (table : Table) : Engine :=
  { e with table, health := e.health.withTable table.size }

/-- Goes over to the table that the archive holds now. -/
def reload (e : Engine) (archive : Archive) : Engine := e.setTable archive.loadTable

/-! ## Asking -/

def percentChange (e : Engine) (instrument : String) : Except Failure Changes := do
  let _ ← e.store.latest instrument
  return e.store.changes e.windows instrument

/-- The strengths of all tracked currencies now. -/
def strength (e : Engine) : Strengths :=
  e.store.strengths e.currencies e.windows e.store.instruments

/-- The oscillators as published, by label. -/
def publishedOscillators (e : Engine) : List PublishedOscillator := e.published.values

/-- The matches as published, by instrument. -/
def publishedEdges (e : Engine) : List (String × EdgeMatch) := e.edges.toList

/-- What the table says about an instrument now. -/
def edge (e : Engine) (instrument : String) : Except Fault EdgeMatch :=
  matchEdge e.edgeSettings e.store e.table instrument

/-- The points of a strength series from a time on, or all of them. -/
def strengthPoints? (e : Engine) (currency window : String) (since : Option Int) :
    Option (Array Point) :=
  (e.strengthHistory.read? ⟨currency, window⟩).map fun series =>
    match since with
    | some ts => series.since ts
    | none => series.points

/-- The points of a source. A difference is taken between the ends of its two series, and is nothing
where it has no points. -/
def series (e : Engine) : Provider := fun source since =>
  match source with
  | .price instrument =>
    (e.store.read? instrument).map fun series =>
      match since with
      | some ts => series.since ts
      | none => series.points
  | .strength currency window => e.strengthPoints? currency window since
  | .differential base quote window => do
    let base ← e.strengthPoints? base window since
    let quote ← e.strengthPoints? quote window since
    let points := differences base quote
    if points.isEmpty then none else some points

/-! ## Refreshing -/

/-- The latest time of any tick in the store. -/
def dataTime? (e : Engine) : Option Int :=
  (e.store.instruments.filterMap fun i => (e.store.latest i).toOption.map (·.ts)).max?

/-- Whether the data has moved on since strengths were sampled. -/
def isDue (e : Engine) (ts : Int) : Bool :=
  match e.sampledAt with
  | some last => decide (last < ts)
  | none => true

/-- Samples the strengths if the data has moved on, and tells how many samples were taken. -/
def sampleStrength (e : Engine) : Engine × Nat :=
  match e.dataTime? with
  | some ts =>
    if e.isDue ts then
      let (strengthHistory, taken) := e.strengthHistory.record ts e.strength
      ({ e with strengthHistory, sampledAt := some ts }, taken)
    else (e, 0)
  | none => (e, 0)

/-- What oscillators are to listen to: the strength of each tracked currency, and the price and the
difference in strength of each pair of tracked currencies. -/
def sources (e : Engine) : List Source :=
  let window := e.oscillators.window
  (e.currencies.map fun c => .strength c window)
    ++ e.store.instruments.flatMap fun instrument =>
      match Pair.ofInstrument? instrument with
      | some pair =>
        if pair.within e.currencies then
          [.price instrument, .differential pair.base pair.quote window]
        else []
      | none => []

/-- The oscillators over each source. A z-score is extreme at equal distances from zero. -/
def kinds (o : OscillatorSettings) : List (OscillatorKind × Bands) :=
  [(.rsi o.rsiPeriod, o.bands), (.stochastic o.stochasticK o.stochasticD, o.bands),
    (.zScore o.zScoreWindow, ⟨o.zScoreBand, -o.zScoreBand⟩), (.percentRank o.rankWindow, o.bands)]

def specs (e : Engine) : List OscillatorSpec :=
  e.sources.flatMap fun source => (kinds e.oscillators).map fun (kind, bands) => ⟨source, kind, bands⟩

/-- Publishes an output under its label. -/
def publish (published : Std.ExtTreeMap String PublishedOscillator)
    (reading : OscillatorSpec × OscillatorOutput) : Std.ExtTreeMap String PublishedOscillator :=
  let (spec, output) := reading
  published.insert spec.label ⟨spec.label, spec.source, spec.kind, output⟩

/-- One refresh. -/
def refresh (e : Engine) (watch : Stopwatch) : Except Fault (Engine × RefreshSummary) := do
  let instruments := e.store.instruments
  let (e, strengthSamples) := e.sampleStrength
  let (bank, oscillatorsAdded) ← e.bank.ensureAll e.specs
  let (bank, pointsConsumed) := bank.refresh e.series
  let found ← instruments.mapM fun i => do return (i, ← e.edge i)
  let refreshed :=
    { e with
      bank
      published := bank.readings.foldl publish e.published
      edges := found.foldl (fun edges (i, edge) => edges.insert i edge) e.edges
      latency := e.latency.recordMicros watch.micros
      health := e.health.refreshedAt watch.finishedAt }
  let edgesMatched := (found.filter fun (_, edge) => edge.isMatched).length
  return (refreshed,
    ⟨instruments.length, strengthSamples, oscillatorsAdded, pointsConsumed, edgesMatched⟩)

end Engine

end FxPulse
