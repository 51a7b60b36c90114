import Std.Data.ExtTreeMap
import FxPulse.Market.Direction
import FxPulse.State.Key

/-!
# `Scan/Tally.lean` — counting successes

A scan counts, for every trigger, outcome, direction and state, how often the outcome was looked for
and how often it was met.
-/

set_option autoImplicit false

namespace FxPulse

/-- What is counted together. -/
structure RowKey where
  trigger : String
  outcome : String
  direction : Direction
  state : StateKey
deriving DecidableEq, Repr

namespace RowKey

/-- By trigger, outcome, direction and state. -/
instance : Ord RowKey :=
  ⟨compareLex (compareOn (·.trigger))
    (compareLex (compareOn (·.outcome))
      (compareLex (compareOn (·.direction)) (compareOn (·.state))))⟩

instance : Std.TransOrd RowKey :=
  inferInstanceAs (Std.TransCmp (compareLex _ _))

instance : Std.LawfulEqOrd RowKey where
  eq_of_compare {a b} h := by
    have ⟨trigger, rest0⟩ := compareLex_eq_eq.1 h
    have ⟨outcome, rest1⟩ := compareLex_eq_eq.1 rest0
    have ⟨direction, last⟩ := compareLex_eq_eq.1 rest1
    have trigger : a.trigger = b.trigger := Std.LawfulEqOrd.eq_of_compare trigger
    have outcome : a.outcome = b.outcome := Std.LawfulEqOrd.eq_of_compare outcome
    have direction : a.direction = b.direction := Std.LawfulEqOrd.eq_of_compare direction
    have state : a.state = b.state := Std.LawfulEqOrd.eq_of_compare last
    cases a
    cases b
    simp_all

end RowKey

structure Counts where
  successes : Nat
  total : Nat
deriving DecidableEq, Repr, Inhabited

/-- One case: what it counts for, and whether the outcome was met. -/
structure Sample where
  key : RowKey
  success : Bool
deriving DecidableEq, Repr

/-- One case more. -/
def Counts.add (c : Counts) (success : Bool) : Counts :=
  ⟨if success then c.successes + 1 else c.successes, c.total + 1⟩

abbrev Tally := Std.ExtTreeMap RowKey Counts

namespace Tally

/-- A key is entered with its first case. -/
def add (t : Tally) (s : Sample) : Tally :=
  t.insert s.key ((t.getD s.key ⟨0, 0⟩).add s.success)

def addAll (t : Tally) (samples : List Sample) : Tally := samples.foldl add t

end Tally

end FxPulse
