import FxPulse.Proofs.Edge.Live
import FxPulse.Proofs.History.Retained

/-!
# `Proofs/Edge/Pruned.lean` — forgetting is invisible to triggers

A series forgets, and a reference it has forgotten cannot be found. Whether that matters is decided by the
gap: a trigger takes no reference that is further back than its window and the gap together. So

> where history is kept for the window and the gap of a trigger, the trigger fires on what is kept exactly
> when it fires on all that ever came, and with the same burst.

A look-up that finds nothing any more would have found a point before the cutoff, and that one
`Burst.between?` refuses (`between?_eq_none_of_old`).
-/

set_option autoImplicit false

namespace FxPulse

theorem filter_firedBy (e : EdgeSettings) (s : Series) (pip : Float) (t : Trigger) :
    (firedBy e s pip).filter (fun b => b.trigger = t)
      = e.triggers.filterMap fun u => if u = t then s.burst? pip e.gap t else none := by
  rw [firedBy_eq_filterMap, List.filter_filterMap]
  -- A trigger may stand in the list more than once, so this goes place by place.
  apply List.filterMap_congr
  intro u hu
  cases fired : s.burst? pip e.gap u with
  | none =>
    by_cases own : u = t
    · rw [if_pos own, ← own, fired, Option.filter_none]
    · rw [if_neg own, Option.filter_none]
  | some b =>
    have named := Series.trigger_eq_of_burst? fired
    by_cases own : u = t
    · rw [if_pos own, ← own, fired]
      simp [named]
    · rw [if_neg own]
      simp [named, own]

theorem Burst.between?_eq_none_of_old {current reference : Point} {pip : Float} {gap : Int}
    {t : Trigger} (old : t.window + gap < current.ts - reference.ts) :
    Burst.between? current reference pip gap t = none := by
  have refused : t.spans (current.ts - reference.ts) gap = false :=
    decide_eq_false (Int.not_le.2 old)
  simp [Burst.between?, refused]

section Pruned

variable {s : Series} {came : List Point} (retains : s.Retains came)
  (roomy : (Series.recent s.retention came).length ≤ s.capacity)
include retains roomy

/-- **A trigger whose references are kept sees what it would see among all points.** -/
theorem Series.Retains.burst?_eq {gap : Int} {t : Trigger} (reach : t.window + gap ≤ s.retention)
    (pip : Float) : s.burst? pip gap t = Series.burst? { s with points := came.toArray } pip gap t := by
  have last : Series.latest? { s with points := came.toArray } = came.getLast? := by
    rw [Series.latest?, ← Array.getLast?_toList]
  unfold Series.burst?
  rw [retains.latest?_eq, last]
  cases newest : came.getLast? with
  | none => rfl
  | some current =>
    simp only [Option.bind_eq_bind, Option.bind_some]
    rw [retains.covering?_eq roomy newest, Series.covering?]
    cases found : Point.covering? came.toArray (current.ts - t.window) with
    | none => rfl
    | some reference =>
      rw [Option.filter_some, Option.bind_some]
      by_cases kept : current.ts - s.retention ≤ reference.ts
      · rw [if_pos (decide_eq_true kept), Option.bind_some]
      · -- The reference is gone, but it was too far back to be taken.
        have old : t.window + gap < current.ts - reference.ts := by omega
        rw [if_neg (mt of_decide_eq_true kept), Option.bind_none,
          Burst.between?_eq_none_of_old old]

end Pruned

/-- **Pruning is invisible to triggers.** A series has taken in some pushes and pruned by age alone; beside
it stands one that has kept every point it accepted. A trigger whose window and gap are covered by the
retention has the same bursts at the end of both. -/
theorem firedBy_unpruned (e : EdgeSettings) {retention : Int} (forward : 0 ≤ retention)
    {capacity : Nat} {calls : List Point}
    (roomy : (Series.recent retention ((Series.new retention capacity).accepted calls)).length
      ≤ max capacity 1)
    {t : Trigger} (reach : t.window + e.gap ≤ retention) (pip : Float) :
    let pruned := (Series.new retention capacity).offerAll calls
    let whole : Series :=
      { pruned with points := ((Series.new retention capacity).accepted calls).toArray }
    (firedBy e pruned pip).filter (fun b => b.trigger = t)
      = (firedBy e whole pip).filter fun b => b.trigger = t := by
  intro pruned whole
  obtain ⟨retains, retention_eq, capacity_eq⟩ :=
    (Series.retains_new forward capacity).offerAll calls
  rw [List.nil_append] at retains
  have same : pruned.burst? pip e.gap t = whole.burst? pip e.gap t := by
    apply retains.burst?_eq
    · rw [retention_eq, capacity_eq]
      exact roomy
    · rw [retention_eq]
      exact reach
  rw [filter_firedBy, filter_firedBy, same]

end FxPulse
