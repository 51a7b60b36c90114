import Std.Data.ExtTreeMap
import FxPulse.Failure
import FxPulse.History.Series

/-!
# `History/TickStore.lean` — mid prices by instrument

Each instrument has a series of its own, begun by the first quote that is accepted for it. A quote is
refused when its prices are no prices or its time lies before the instrument's last; a refusal
changes nothing.
-/

set_option autoImplicit false

namespace FxPulse

/-- Points that one series may hold, whatever its retention. -/
def seriesCapacity : Nat := 200000

structure TickStore where
  series : Std.ExtTreeMap String Series
  retention : Int

namespace TickStore

def new (retention : Int) : TickStore := ⟨∅, retention⟩

/-- A price is finite and greater than zero. -/
def isPrice (x : Float) : Bool := x.isFinite && x > 0.0

/-- The series of an instrument, empty if it has none yet. -/
def seriesOf (s : TickStore) (instrument : String) : Series :=
  s.series.getD instrument (Series.new s.retention seriesCapacity)

/-- The store with an entry for the instrument, an empty one if it had none. -/
def entered (s : TickStore) (instrument : String) : TickStore :=
  { s with series := s.series.insertIfNew instrument (Series.new s.retention seriesCapacity) }

/-- The store with another series for the instrument. -/
def withSeries (s : TickStore) (instrument : String) (series : Series) : TickStore :=
  { s with series := s.series.insert instrument series }

def add (s : TickStore) (t : Tick) : Except Failure (TickStore × Point) :=
  if isPrice t.bid && isPrice t.ask then
    let point : Point := ⟨t.ts, t.mid⟩
    match (s.seriesOf t.instrument).push point with
    | .ok grown => .ok ({ s with series := s.series.insert t.instrument grown }, point)
    | .error r => .error (.invalidInput t.instrument (.timeRegressed r.ts r.last))
  else
    .error (.invalidInput t.instrument (.badPrices t.bid t.ask))

/-- The series of an instrument that has points. -/
def read? (s : TickStore) (instrument : String) : Option Series :=
  s.series[instrument]?.filter fun series => !series.isEmpty

/-- What `look` finds in an instrument's series. -/
def find {α : Type} (s : TickStore) (instrument : String) (look : Series → Option α) :
    Except Failure α :=
  match (s.read? instrument).bind look with
  | some found => .ok found
  | none => .error (.notAvailable (.history instrument))

def latest (s : TickStore) (instrument : String) : Except Failure Point :=
  s.find instrument Series.latest?

/-- The latest point not after `ts`, or the earliest of a history that begins later. -/
def atOrBefore (s : TickStore) (instrument : String) (ts : Int) : Except Failure Point :=
  s.find instrument (·.atOrBefore? ts)

def snapshot (s : TickStore) (instrument : String) : Except Failure (Array Point) :=
  s.find instrument fun series => some series.points

def since (s : TickStore) (instrument : String) (ts : Int) : Except Failure (Array Point) :=
  s.find instrument fun series => some (series.since ts)

/-- The instruments with a series, in order. -/
def instruments (s : TickStore) : List String := s.series.keys

end TickStore

end FxPulse
