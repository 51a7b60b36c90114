import FxPulse.History.Search

/-!
# `History/Series.lean` — a series that forgets

A series takes points in order of time and keeps the recent ones: those no older than its retention
before the newest, and no more than its capacity. Points at the same time are kept in the order in
which they came, so a look-up at that time finds the last of them.

Times are whole numbers of any size here. `Checked/History.lean` computes with them in words.
-/

set_option autoImplicit false

namespace FxPulse

structure Series where
  points : Array Point
  retention : Int
  capacity : Nat

/-- A point that would take a series back in time. -/
structure Regression where
  last : Int
  ts : Int
deriving DecidableEq, Repr

namespace Series

/-- A series holds at least one point, whatever its capacity. -/
def new (retention : Int) (capacity : Nat) : Series :=
  ⟨#[], retention, max capacity 1⟩

def latest? (s : Series) : Option Point := s.points.back?

def earliest? (s : Series) : Option Point := s.points[0]?

def size (s : Series) : Nat := s.points.size

def isEmpty (s : Series) : Bool := s.points.isEmpty

/-- How many points at the front are older than `cutoff`. -/
def staleCount (points : Array Point) (cutoff : Int) : Nat :=
  (points.findIdx? fun p => cutoff ≤ p.ts).getD points.size

/-- What is left at time `now`. -/
def prune (s : Series) (now : Int) : Series :=
  let stale := staleCount s.points (now - s.retention)
  let surplus := s.points.size - s.capacity
  { s with points := s.points.extract (max stale surplus) s.points.size }

def push (s : Series) (p : Point) : Except Regression Series :=
  match s.latest? with
  | some last =>
    if p.ts < last.ts then .error ⟨last.ts, p.ts⟩
    else .ok (prune { s with points := s.points.push p } p.ts)
  | none => .ok (prune { s with points := s.points.push p } p.ts)

/-- The latest point not after `ts`; when the series begins later, its earliest point. -/
def atOrBefore? (s : Series) (ts : Int) : Option Point := Point.atOrBefore? s.points ts

/-- The latest point not after `ts`. -/
def covering? (s : Series) (ts : Int) : Option Point := Point.covering? s.points ts

/-- The points from `ts` on. -/
def since (s : Series) (ts : Int) : Array Point := Point.since s.points ts

end Series

end FxPulse
