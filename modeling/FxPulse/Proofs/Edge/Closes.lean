import FxPulse.Proofs.Edge.Minutes
import FxPulse.Proofs.History.Search
import Mathlib.Data.Finset.Sort
import Mathlib.Data.List.DropRight
import Mathlib.Data.Rat.Floor

/-!
# `Proofs/Edge/Closes.lean` — which values the closes are

The walk that gathers closes goes back in time and remembers one minute, that of the point it met last. Read
forward it needs no memory at all:

> a point puts its value in front of the closes behind it, unless the next point is of the same minute
> (`closesBack_reverse_cons`).

Nothing is asked of the points for that. Where time does not go back the points of a minute stand together,
so the one remembered minute tells all it has to, and the closes are the last values of the minutes there
are, each minute once and in order.
-/

set_option autoImplicit false

namespace FxPulse

namespace Point

/-- The minutes that the points belong to, each once, in order. -/
def minutes (points : List Point) : List Int := (points.map bucket).toFinset.sort

/-- The last of the points that belong to a minute. -/
def lastIn? (points : List Point) (minute : Int) : Option Point :=
  (points.filter fun p => p.bucket = minute).getLast?

theorem bucket_eq_floor (p : Point) : p.bucket = ⌊(p.ts : ℚ) / 60000⌋ := by
  rw [bucket, minute, Int.fdiv_eq_ediv_of_nonneg _ (by decide)]
  exact (Rat.floor_intCast_div_natCast p.ts 60000).symm

theorem bucket_le_bucket {p q : Point} (h : p.ts ≤ q.ts) : p.bucket ≤ q.bucket := by
  rw [bucket_eq_floor, bucket_eq_floor]
  apply Int.floor_le_floor
  gcongr

/-! ## One point more in front -/

section Cons

variable {p : Point} {later : List Point}

theorem minutes_cons_of_mem (h : p.bucket ∈ later.map bucket) : minutes (p :: later) = minutes later := by
  unfold minutes
  rw [List.map_cons, List.toFinset_cons, Finset.insert_eq_of_mem (List.mem_toFinset.2 h)]

theorem minutes_cons_of_lt (h : ∀ q ∈ later, p.bucket < q.bucket) :
    minutes (p :: later) = p.bucket :: minutes later := by
  have above : ∀ m ∈ (later.map bucket).toFinset, p.bucket < m := by
    intro m mem
    obtain ⟨q, hq, rfl⟩ := List.mem_map.1 (List.mem_toFinset.1 mem)
    exact h q hq
  unfold minutes
  rw [List.map_cons, List.toFinset_cons]
  exact Finset.sort_insert _ (fun m mem => (above m mem).le) fun mem => (above _ mem).false

theorem lastIn?_cons_of_mem {minute : Int} (h : minute ∈ later.map bucket) :
    lastIn? (p :: later) minute = lastIn? later minute := by
  obtain ⟨q, hq, rfl⟩ := List.mem_map.1 h
  have there : q ∈ later.filter fun r => r.bucket = q.bucket :=
    List.mem_filter.2 ⟨hq, decide_eq_true rfl⟩
  unfold lastIn?
  rw [List.filter_cons]
  split
  · rw [List.getLast?_cons, List.getLast?_eq_some_getLast (List.ne_nil_of_mem there), Option.getD_some]
  · rfl

theorem lastIn?_cons_self (h : ∀ q ∈ later, p.bucket < q.bucket) :
    lastIn? (p :: later) p.bucket = some p := by
  have none_later : later.filter (fun q => q.bucket = p.bucket) = [] :=
    List.filter_eq_nil_iff.2 fun q hq => by simpa using (h q hq).ne'
  rw [lastIn?, List.filter_cons, if_pos (decide_eq_true rfl), none_later]
  rfl

end Cons

end Point

open FxPulse.Point (Ordered)

/-! ## The walk read forward -/

/-- What a walk does with its last point depends on the point before it alone. -/
theorem closesBack_concat (walk : List Point) (p : Point) (bucket : Option Int) (closes : List Float) :
    closesBack none (walk ++ [p]) bucket closes
      = if (walk.getLast?.map Point.bucket).or bucket = some p.bucket then closesBack none walk bucket closes
        else p.value :: closesBack none walk bucket closes := by
  induction walk generalizing bucket closes with
  | nil =>
    change closesBack none [p] bucket closes
      = if bucket = some p.bucket then closes else p.value :: closes
    by_cases same : bucket = some p.bucket
    · rw [closesBack_same same, if_pos same]
      rfl
    · rw [closesBack_next same (by simp), if_neg same]
      rfl
  | cons q rest ih =>
    -- Behind `q` the walk remembers the minute of `q`, whether it took its value or passed over it.
    have remembered : ((q :: rest).getLast?.map Point.bucket).or bucket
        = (rest.getLast?.map Point.bucket).or (some q.bucket) := by
      rw [List.getLast?_cons]
      cases rest.getLast? <;> rfl
    rw [List.cons_append, remembered]
    by_cases same : bucket = some q.bucket
    · rw [closesBack_same same, closesBack_same same, ih, same]
    · rw [closesBack_next same (by simp), closesBack_next same (by simp), ih]

/-- **A point gives a close unless the next one is of the same minute.** -/
theorem closesBack_reverse_cons (p : Point) (later : List Point) :
    closesBack none (p :: later).reverse none []
      = if later.head?.map Point.bucket = some p.bucket then closesBack none later.reverse none []
        else p.value :: closesBack none later.reverse none [] := by
  rw [List.reverse_cons, closesBack_concat, List.getLast?_reverse, Option.or_none]

/-- In order of time, a point that is not of the minute of the next one is of an earlier minute than all that
follow. -/
theorem Point.Ordered.bucket_lt {p : Point} {later : List Point} (ordered : Ordered (p :: later))
    (differs : later.head?.map Point.bucket ≠ some p.bucket) : ∀ q ∈ later, p.bucket < q.bucket := by
  obtain ⟨first, sorted⟩ := List.pairwise_cons.1 ordered
  cases later with
  | nil => simp
  | cons next rest =>
    have apart : p.bucket < next.bucket :=
      lt_of_le_of_ne (bucket_le_bucket (first next List.mem_cons_self)) fun same => differs (by simp [same])
    intro q hq
    rcases List.mem_cons.1 hq with rfl | hq
    · exact apart
    · exact apart.trans_le (bucket_le_bucket ((List.pairwise_cons.1 sorted).1 q hq))

theorem map_closesBack_reverse {points : List Point} (ordered : Ordered points) :
    (closesBack none points.reverse none []).map some
      = (Point.minutes points).map fun m => (Point.lastIn? points m).map (·.value) := by
  induction points with
  | nil => simp [closesBack, Point.minutes]
  | cons p later ih =>
    have behind := ih (List.pairwise_cons.1 ordered).2
    have kept : (Point.minutes later).map (fun m => (Point.lastIn? (p :: later) m).map (·.value))
        = (Point.minutes later).map fun m => (Point.lastIn? later m).map (·.value) := by
      refine List.map_congr_left fun m mem => ?_
      have there : m ∈ later.map Point.bucket := by simpa [Point.minutes] using mem
      rw [Point.lastIn?_cons_of_mem there]
    rw [closesBack_reverse_cons]
    by_cases same : later.head?.map Point.bucket = some p.bucket
    · obtain ⟨next, first, own⟩ := Option.map_eq_some_iff.1 same
      have again : p.bucket ∈ later.map Point.bucket := by
        rw [← own]
        exact List.mem_map_of_mem (List.mem_of_head? first)
      rw [if_pos same, Point.minutes_cons_of_mem again, kept, behind]
    · have earliest := ordered.bucket_lt same
      rw [if_neg same, Point.minutes_cons_of_lt earliest, List.map_cons, List.map_cons, kept, behind,
        Point.lastIn?_cons_self earliest]
      rfl

/-- **The closes are the last values of the minutes, and a limit leaves the latest of them.** The minute of a
point is its time in minutes, rounded down, before the epoch as well. Of points in order of time, equal times
included, there is one close for each minute that has points, in the order of the minutes, and it is the value
of the last point of that minute. With a limit the closes are the last ones of these, as many as the limit
says or all there are. -/
theorem minuteCloses_lasts {points : Array Point} (ordered : Ordered points.toList) :
    (∀ p : Point, p.bucket = ⌊(p.ts : ℚ) / 60000⌋) ∧
    (minuteCloses points).map some
      = (Point.minutes points.toList).map (fun m => (Point.lastIn? points.toList m).map (·.value)) ∧
    ∀ limit, recentMinuteCloses points limit = (minuteCloses points).rtake limit :=
  ⟨Point.bucket_eq_floor, map_closesBack_reverse ordered, recentMinuteCloses_eq points⟩

/-- Minutes on both sides of the epoch, two of them with several points and one with two points at one
time. -/
theorem minuteCloses_lasts_epoch :
    let points : Array Point := #[⟨-60001, 1.0⟩, ⟨-60000, 1.25⟩, ⟨-1, 1.5⟩, ⟨0, 1.75⟩, ⟨59999, 2.0⟩,
      ⟨59999, 2.25⟩, ⟨60000, 2.5⟩]
    Ordered points.toList ∧
    (Point.minutes points.toList).map (fun m => (Point.lastIn? points.toList m).map (·.value))
      = [some 1.0, some 1.5, some 2.25, some 2.5] ∧
    recentMinuteCloses points 2 = [2.25, 2.5] ∧ recentMinuteCloses points 0 = [] := by
  intro points
  have ordered : Ordered points.toList := by
    unfold Ordered
    decide
  obtain ⟨-, closes, recent⟩ := minuteCloses_lasts ordered
  refine ⟨ordered, closes.symm.trans ?_, (recent 2).trans ?_, (recent 0).trans ?_⟩ <;> decide +kernel

end FxPulse
