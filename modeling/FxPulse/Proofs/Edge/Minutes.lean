import FxPulse.Edge.Match
import FxPulse.Proofs.State.Lookback

/-!
# `Proofs/Edge/Minutes.lean` — closes of minutes

Live matching walks back over a series until it has as many closes as the state looks back on. Stopping
early takes nothing away from those it has:

> the closes of the latest minutes are the last of the closes of all minutes,

and since a state asks for no more than its look-back, the live state is the state of all minutes. Where
each point has a minute of its own, the closes are simply the values of the points.
-/

set_option autoImplicit false

namespace FxPulse

/-- The minute a point belongs to. -/
def Point.bucket (p : Point) : Int := Int.fdiv p.ts minute

/-- No two of the points belong to one minute. -/
def Point.OnePerMinute (points : List Point) : Prop := points.Pairwise fun a b => a.bucket ≠ b.bucket

/-! ## One point of a walk -/

section Step

variable {limit : Option Nat} {p : Point} {earlier : List Point} {bucket : Option Int}
  {closes : List Float}

theorem closesBack_same (same : bucket = some p.bucket) :
    closesBack limit (p :: earlier) bucket closes = closesBack limit earlier bucket closes :=
  if_pos same

theorem closesBack_full (differs : bucket ≠ some p.bucket) (full : limit = some closes.length) :
    closesBack limit (p :: earlier) bucket closes = closes :=
  (if_neg differs).trans (if_pos full)

theorem closesBack_next (differs : bucket ≠ some p.bucket) (room : limit ≠ some closes.length) :
    closesBack limit (p :: earlier) bucket closes
      = closesBack limit earlier (some p.bucket) (p.value :: closes) :=
  (if_neg differs).trans (if_neg room)

end Step

/-! ## Stopping early -/

/-- The closes there are at the start of a walk stay at the end. -/
theorem closesBack_suffix (points : List Point) (bucket : Option Int) (closes : List Float) :
    closes <:+ closesBack none points bucket closes := by
  induction points generalizing bucket closes with
  | nil => exact List.suffix_rfl
  | cons p earlier ih =>
    by_cases same : bucket = some p.bucket
    · rw [closesBack_same same]
      exact ih bucket closes
    · rw [closesBack_next same (by simp)]
      exact (List.suffix_cons _ _).trans (ih _ _)

/-- A walk with a limit goes the same way and stops. -/
theorem closesBack_limit {limit : Nat} {points : List Point} {bucket : Option Int}
    {closes : List Float} (room : closes.length ≤ limit) :
    closesBack (some limit) points bucket closes
      = (closesBack none points bucket closes).drop
          ((closesBack none points bucket closes).length - limit) := by
  induction points generalizing bucket closes with
  | nil => rw [closesBack, closesBack, Nat.sub_eq_zero_of_le room, List.drop_zero]
  | cons p earlier ih =>
    by_cases same : bucket = some p.bucket
    · rw [closesBack_same same, closesBack_same same]
      exact ih room
    · rw [closesBack_next same (by simp : (none : Option Nat) ≠ _)]
      by_cases full : limit = closes.length
      · -- The closes there are now are the last ones of those that the whole walk finds.
        have kept := (List.suffix_cons p.value closes).trans
          (closesBack_suffix earlier (some p.bucket) (p.value :: closes))
        rw [closesBack_full same (congrArg some full), full]
        exact List.suffix_iff_eq_drop.1 kept
      · rw [closesBack_next same (by simpa using full)]
        exact ih (by simp only [List.length_cons]; omega)

/-- **The closes of the latest minutes are the last of all closes.** -/
theorem recentMinuteCloses_eq (points : Array Point) (limit : Nat) :
    recentMinuteCloses points limit
      = (minuteCloses points).drop ((minuteCloses points).length - limit) :=
  closesBack_limit (Nat.zero_le _)

/-- The live state is the state of all minutes. -/
theorem compute_recentMinuteCloses (s : StateSpec) (points : Array Point) :
    s.compute (recentMinuteCloses points s.lookback).toArray
      = s.compute (minuteCloses points).toArray := by
  rw [← StateSpec.compute_recent s (minuteCloses points).toArray]
  congr 1
  rw [← Array.toList_inj, recentMinuteCloses_eq]
  exact (StateSpec.tail_eq_drop (minuteCloses points).toArray s.lookback).symm

/-! ## Points with a minute of their own -/

theorem closesBack_of_onePerMinute {points : List Point} {bucket : Option Int} {closes : List Float}
    (apart : Point.OnePerMinute points) (fresh : ∀ p ∈ points, bucket ≠ some p.bucket) :
    closesBack none points bucket closes = (points.map (·.value)).reverse ++ closes := by
  induction points generalizing bucket closes with
  | nil => rfl
  | cons p earlier ih =>
    obtain ⟨first, later⟩ := List.pairwise_cons.1 apart
    have next : ∀ q ∈ earlier, some p.bucket ≠ some q.bucket :=
      fun q hq same => first q hq (Option.some.inj same)
    rw [closesBack_next (fresh p List.mem_cons_self) (by simp), ih later next, List.map_cons,
      List.reverse_cons, List.append_assoc, List.singleton_append]

theorem minuteCloses_of_onePerMinute {points : Array Point}
    (apart : Point.OnePerMinute points.toList) :
    minuteCloses points = points.toList.map (·.value) := by
  have backwards : Point.OnePerMinute points.toList.reverse :=
    List.pairwise_reverse.2 (apart.imp Ne.symm)
  rw [minuteCloses, closesBack_of_onePerMinute backwards (by simp), List.map_reverse,
    List.reverse_reverse, List.append_nil]

end FxPulse
