import FxPulse.Strength.Votes

/-!
# `Strength/History.lean` — strengths over time

Each pair of a currency and a window has a series of the strengths sampled so far. It obeys the same
look-ups as the price of an instrument.
-/

set_option autoImplicit false

namespace FxPulse

/-- A currency and the label of a window. -/
structure StrengthKey where
  currency : String
  window : String
deriving DecidableEq, Repr

namespace StrengthKey

/-- By currency, then by window. -/
instance : Ord StrengthKey := ⟨compareLex (compareOn (·.currency)) (compareOn (·.window))⟩

instance : Std.TransOrd StrengthKey :=
  inferInstanceAs (Std.TransCmp (compareLex _ _))

instance : Std.LawfulEqOrd StrengthKey where
  eq_of_compare {a b} h := by
    have ⟨currency, last⟩ := compareLex_eq_eq.1 h
    have currency : a.currency = b.currency := Std.LawfulEqOrd.eq_of_compare currency
    have window : a.window = b.window := Std.LawfulEqOrd.eq_of_compare last
    cases a
    cases b
    simp_all

end StrengthKey

structure StrengthHistory where
  series : Std.ExtTreeMap StrengthKey Series
  retention : Int

namespace StrengthHistory

def new (retention : Int) : StrengthHistory := ⟨∅, retention⟩

/-- Records one sample; one that lies before the last of its series is passed over. -/
def recordOne (h : StrengthHistory) (ts : Int) (key : StrengthKey) (percent : Float) :
    StrengthHistory × Bool :=
  match (h.series.getD key (Series.new h.retention seriesCapacity)).push ⟨ts, percent⟩ with
  | .ok grown => ({ h with series := h.series.insert key grown }, true)
  | .error _ => (h, false)

/-- The samples in a set of strengths, currency by currency. -/
def samples (strengths : Strengths) : List (StrengthKey × Float) :=
  strengths.toList.flatMap fun (currency, changes) =>
    changes.toList.map fun change => (⟨currency, change.label⟩, change.percent)

/-- Records all samples at one time, and tells how many were taken. -/
def record (h : StrengthHistory) (ts : Int) (strengths : Strengths) : StrengthHistory × Nat :=
  (samples strengths).foldl (fun (h, taken) (key, percent) =>
      let (h, accepted) := h.recordOne ts key percent
      (h, if accepted then taken + 1 else taken))
    (h, 0)

/-- The series of a key that has points. -/
def read? (h : StrengthHistory) (key : StrengthKey) : Option Series :=
  h.series[key]?.filter fun series => !series.isEmpty

/-- What `look` finds in the series of a key. -/
def find {α : Type} (h : StrengthHistory) (key : StrengthKey) (look : Series → Option α) :
    Except Failure α :=
  match (h.read? key).bind look with
  | some found => .ok found
  | none => .error (.notAvailable (.strengthHistory key.currency key.window))

def latest (h : StrengthHistory) (key : StrengthKey) : Except Failure Point :=
  h.find key Series.latest?

def atOrBefore (h : StrengthHistory) (key : StrengthKey) (ts : Int) : Except Failure Point :=
  h.find key (·.atOrBefore? ts)

def snapshot (h : StrengthHistory) (key : StrengthKey) : Except Failure (Array Point) :=
  h.find key fun series => some series.points

def since (h : StrengthHistory) (key : StrengthKey) (ts : Int) : Except Failure (Array Point) :=
  h.find key fun series => some (series.since ts)

/-- The keys with a series, in order. -/
def keys (h : StrengthHistory) : List StrengthKey := h.series.keys

end StrengthHistory

end FxPulse
