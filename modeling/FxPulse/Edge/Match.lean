import FxPulse.Burst.Basic
import FxPulse.History.TickStore
import FxPulse.Market.Pair
import FxPulse.State.Spec
import FxPulse.Table.Basic

/-!
# `Edge/Match.lean` — what history says about now

When a trigger fires on live prices, the table is asked for the row that describes the moment best.
Triggers are tried in order of priority; for each of them the exact state is looked up first, then
coarser and coarser ones. At one level the row with the most cases wins, and rows with too few never
do.
-/

set_option autoImplicit false

namespace FxPulse

open FxPulse.Number

structure EdgeSettings where
  /-- In the order in which they are tried. -/
  triggers : List Trigger
  state : StateSpec
  minTotal : Nat
  pips : PipSizes
  gap : Int

/-- A row that matches the moment. -/
structure EdgeReading where
  trigger : String
  direction : Direction
  movePips : Float
  state : StateKey
  /-- Whether the row is for this very state and not for a coarser one. -/
  exact : Bool
  row : Row
deriving DecidableEq, Repr

inductive NoMatch where
  | noHistory
  | noTrigger
  | noRows
  /-- There are rows; the greatest number of cases among them is too small. -/
  | insufficientSample (bestTotal : Nat)
deriving DecidableEq, Repr

inductive EdgeMatch where
  | matched (reading : EdgeReading)
  | noMatch (reason : NoMatch)
deriving DecidableEq, Repr

def EdgeMatch.isMatched : EdgeMatch → Bool
  | .matched _ => true
  | .noMatch _ => false

/-! ## Closes of minutes -/

/-- Walks back in time from the newest point and puts one value for each minute it meets in front of
those it has, until there are `limit` of them. -/
def closesBack (limit : Option Nat) : List Point → Option Int → List Float → List Float
  | [], _, closes => closes
  | p :: earlier, bucket, closes =>
    let own := Int.fdiv p.ts minute
    -- Going back, the first point met in a minute is the minute's last one.
    if bucket = some own then closesBack limit earlier bucket closes
    else if limit = some closes.length then closes
    else closesBack limit earlier (some own) (p.value :: closes)

/-- The last value in each minute, of the latest `limit` minutes. A minute without points is left
out. -/
def recentMinuteCloses (points : Array Point) (limit : Nat) : List Float :=
  closesBack (some limit) points.toList.reverse none []

/-- The last value in each minute. -/
def minuteCloses (points : Array Point) : List Float :=
  closesBack none points.toList.reverse none []

/-! ## Matching -/

/-- The bursts at the end of a series, in the order of the triggers. -/
def firedBy (s : EdgeSettings) (series : Series) (pip : Float) : List Burst :=
  match series.latest? with
  | none => []
  | some current =>
    s.triggers.filterMap fun trigger => do
      let reference ← series.covering? (current.ts - trigger.window)
      Burst.between? current reference pip s.gap trigger

/-- The better of two rows at one level: more cases, then the greater probability. The later one wins
a tie. -/
def better (a b : Row) : Row :=
  let order := (compare a.counts.total b.counts.total).then (Ranked.order a.probability b.probability)
  if order.isLE then b else a

/-- The best of some rows. -/
def best? : List Row → Option Row
  | [] => none
  | row :: rest => some (rest.foldl better row)

/-- The greatest number of cases among rows. -/
def greatestTotal? (rows : List Row) : Option Nat := (rows.map (·.counts.total)).max?

/-- The greater of two totals, where there are any. -/
def mergeTotals : Option Nat → Option Nat → Option Nat
  | some a, some b => some (max a b)
  | some a, none => some a
  | none, b => b

/-- The rows for a burst in one state. -/
def eligible (candidates : List Row) (level : StateKey) : List Row :=
  candidates.filter fun r => r.key.state == level

/-- A burst at one level of the state, with the rows for it. -/
structure Attempt where
  burst : Burst
  level : StateKey
  rows : List Row

/-- All attempts, in the order in which they are made. -/
def attempts (table : Table) (symbol : String) (state : StateKey) (bursts : List Burst) :
    List Attempt :=
  bursts.flatMap fun burst =>
    let candidates := table.candidates ⟨symbol, burst.trigger.label, burst.direction⟩
    state.levels.map fun level => ⟨burst, level, eligible candidates level⟩

/-- The best of the rows with enough cases. -/
def Attempt.winner? (a : Attempt) (minTotal : Nat) : Option Row :=
  best? (a.rows.filter fun r => minTotal ≤ r.counts.total)

/-- Makes the attempts one after the other. `bestTotal` is the greatest total met so far. -/
def settle (minTotal : Nat) (state : StateKey) (bestTotal : Option Nat) : List Attempt → EdgeMatch
  | [] =>
    match bestTotal with
    | some total => .noMatch (.insufficientSample total)
    | none => .noMatch .noRows
  | attempt :: rest =>
    match attempt.winner? minTotal with
    | some row =>
      .matched
        { trigger := attempt.burst.trigger.label
          direction := attempt.burst.direction
          movePips := attempt.burst.movePips
          state
          exact := attempt.level == state
          row }
    | none => settle minTotal state (mergeTotals bestTotal (greatestTotal? attempt.rows)) rest

/-- What the table says about an instrument now. -/
def matchEdge (s : EdgeSettings) (store : TickStore) (table : Table) (instrument : String) :
    Except Fault EdgeMatch :=
  match store.read? instrument with
  | none => .ok (.noMatch .noHistory)
  | some series =>
    match firedBy s series (s.pips.pip instrument) with
    | [] => .ok (.noMatch .noTrigger)
    | bursts => do
      let closes := recentMinuteCloses series.points s.state.lookback
      let state ← s.state.compute closes.toArray
      return settle s.minTotal state none (attempts table instrument state bursts)

end FxPulse
