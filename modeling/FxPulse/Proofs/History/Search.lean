import FxPulse.History.Search
import FxPulse.Proofs.Lists

/-!
# `Proofs/History/Search.lean` — what a look-up by time finds

`History/Search.lean` finds a time by halving, and says what halving arrives at on *places*. This file
says it on *points*: where the points are in order of time, a look-up means what a pass over all of
them would mean.

> The points from a time on are those that are not before it; the covering point is the last of those
> that are not after it.

Everything that looks up a time (series, differences, the references of triggers, the ends of horizons)
goes through these few equations and never through `narrow` again.
-/

set_option autoImplicit false

namespace FxPulse

namespace Point

/-! ## Points in order of time -/

/-- The points are in order of time. Several of them may share one. -/
def Ordered (points : List Point) : Prop := points.Pairwise fun a b => a.ts ≤ b.ts

theorem Ordered.le {points : List Point} (sorted : Ordered points) {i j : Nat} (hij : i ≤ j)
    (hj : j < points.length) : points[i].ts ≤ points[j].ts := by
  rcases Nat.lt_or_eq_of_le hij with h | rfl
  · exact List.pairwise_iff_getElem.1 sorted i j _ hj h
  · exact Int.le_refl _

theorem Ordered.of_sublist {points others : List Point} (sorted : Ordered points)
    (h : List.Sublist others points) : Ordered others :=
  List.Pairwise.sublist h sorted

/-- One point more keeps the order when it is not before the last. -/
theorem Ordered.concat {points : List Point} {p : Point} (sorted : Ordered points)
    (h : ∀ q ∈ points, q.ts ≤ p.ts) : Ordered (points ++ [p]) := by
  refine List.pairwise_append.2 ⟨sorted, List.pairwise_singleton _ _, fun q hq r hr => ?_⟩
  rw [List.mem_singleton.1 hr]
  exact h q hq

/-- No point of a list in order is after its last one. -/
theorem Ordered.le_getLast {points : List Point} (sorted : Ordered points) {last : Point}
    (h : points.getLast? = some last) : ∀ q ∈ points, q.ts ≤ last.ts := by
  intro q hq
  obtain ⟨i, hi, rfl⟩ := List.getElem_of_mem hq
  have nonempty : points ≠ [] := by rintro rfl; simp at hi
  rw [List.getLast?_eq_getElem?, List.getElem?_eq_getElem (by omega)] at h
  rw [← Option.some.inj h]
  exact sorted.le (by omega) (by omega)

/-- What the last point is not after, no point is after. -/
theorem Ordered.forall_le {points : List Point} (sorted : Ordered points) {ts : Int}
    (h : ∀ last, points.getLast? = some last → last.ts ≤ ts) : ∀ q ∈ points, q.ts ≤ ts := by
  intro q hq
  cases last : points.getLast? with
  | none =>
    rw [List.getLast?_eq_none_iff.1 last] at hq
    cases hq
  | some final => exact Int.le_trans (sorted.le_getLast last q hq) (h final last)

/-- Points in order are those before a time, and then those from that time on. -/
theorem Ordered.filter_not_append_filter {points : List Point} (sorted : Ordered points) (ts : Int) :
    (points.filter fun p => !decide (ts ≤ p.ts)) ++ (points.filter fun p => decide (ts ≤ p.ts))
      = points := by
  induction points with
  | nil => rfl
  | cons p rest ih =>
    obtain ⟨first, later⟩ := List.pairwise_cons.1 sorted
    by_cases late : ts ≤ p.ts
    · have all : ∀ q ∈ rest, ts ≤ q.ts := fun q hq => Int.le_trans late (first q hq)
      have kept : rest.filter (fun q => decide (ts ≤ q.ts)) = rest := by
        rw [List.filter_eq_self]
        intro q hq
        exact decide_eq_true (all q hq)
      have none_left : rest.filter (fun q => !decide (ts ≤ q.ts)) = [] := by
        rw [List.filter_eq_nil_iff]
        intro q hq
        simpa using all q hq
      simp [late, kept, none_left]
    · simpa [late] using ih later

/-- Of points in order, the last from a time on is the last of all, unless that is before the time. -/
theorem getLast?_filter_since {points : List Point} (sorted : Ordered points) (ts : Int) :
    (points.filter fun p => ts ≤ p.ts).getLast? = points.getLast?.filter fun p => ts ≤ p.ts := by
  cases h : points.getLast? with
  | none => simp [List.getLast?_eq_none_iff.1 h]
  | some last =>
    obtain ⟨front, rfl⟩ := List.getLast?_eq_some_iff.1 h
    rw [List.filter_append, Option.filter_some]
    by_cases late : ts ≤ last.ts
    · simp [late]
    · have early : ∀ p ∈ front, ¬ ts ≤ p.ts := by
        intro p hp
        have before := sorted.le_getLast h p (List.mem_append_left _ hp)
        omega
      simpa [late] using early

/-! ## Places -/

/-- A look-up asks the test of whatever point stands at a place. -/
theorem countBefore_eq (points : Array Point) (n : Nat) (test : Int → Bool) :
    countBefore points n test = boundary n fun i => points[i]?.any fun p => test p.ts := by
  unfold countBefore
  congr 1
  funext i
  cases points[i]? <;> rfl

/-- No more points are counted than there are, in whatever order they stand. -/
theorem countBefore_le (points : Array Point) (n : Nat) (test : Int → Bool) :
    countBefore points n test ≤ n :=
  boundary_le n _

/-- A count asks for no other points than those it counts among. -/
theorem countBefore_congr {points other : Array Point} {n : Nat}
    (same : ∀ i < n, points[i]? = other[i]?) (test : Int → Bool) :
    countBefore points n test = countBefore other n test := by
  rw [countBefore_eq, countBefore_eq]
  exact boundary_congr fun i hi => by rw [same i hi]

section Places

variable {points : Array Point} {test : Int → Bool} {n : Nat}
  (sorted : Ordered points.toList) (down : ∀ a b, a ≤ b → test b = true → test a = true)
  (within : n ≤ points.size)
include sorted down within

/-- Among points in order, a test that holds of early times holds up to some place. -/
theorem any_test_down (i j : Nat) (hij : i ≤ j) (hj : j < n)
    (h : (points[j]?.any fun p => test p.ts) = true) :
    (points[i]?.any fun p => test p.ts) = true := by
  rw [Array.getElem?_eq_getElem (by omega)] at h ⊢
  exact down _ _ (sorted.le hij (by simp; omega)) h

/-- The points counted are those that pass the test. -/
theorem lt_countBefore_iff {i : Nat} (hi : i < n) :
    i < countBefore points n test ↔ test points[i].ts = true := by
  rw [countBefore_eq, lt_boundary_iff (any_test_down sorted down within) hi,
    Array.getElem?_eq_getElem (by omega), Option.any_some]

theorem take_countBefore :
    points.toList.take (countBefore points n test)
      = (points.toList.take n).filter fun p => test p.ts := by
  have bound := countBefore_le points n test
  rw [← take_eq_filter (k := countBefore points n test), List.take_take, Nat.min_eq_left bound]
  intro i hi
  have hi : i < n := by simp at hi; omega
  rw [lt_countBefore_iff sorted down within hi, List.getElem_take, Array.getElem_toList]

end Places

theorem down_le (ts a b : Int) (hab : a ≤ b) (h : decide (b ≤ ts) = true) : decide (a ≤ ts) = true := by
  simp only [decide_eq_true_eq] at h ⊢
  omega

theorem down_lt (ts a b : Int) (hab : a ≤ b) (h : decide (b < ts) = true) : decide (a < ts) = true := by
  simp only [decide_eq_true_eq] at h ⊢
  omega

/-- The last of the first `n` points that is not after a time stands at the end of those counted. -/
theorem getLast?_filter_take {points : Array Point} (sorted : Ordered points.toList) {n : Nat}
    (within : n ≤ points.size) (ts : Int) :
    ((points.toList.take n).filter fun p => p.ts ≤ ts).getLast?
      = match countBefore points n (· ≤ ts) with
        | 0 => none
        | count + 1 => points[count]? := by
  have bound := countBefore_le points n (· ≤ ts)
  rw [← take_countBefore sorted (down_le ts) within, List.getLast?_eq_getElem?, List.length_take,
    Array.length_toList, Nat.min_eq_left (by omega)]
  cases countBefore points n (· ≤ ts) with
  | zero => rw [List.take_zero, List.getElem?_nil]
  | succ count =>
    rw [Nat.add_sub_cancel, List.getElem?_take_of_lt (by omega), Array.getElem?_toList]

section Fronts

variable {points : Array Point} (sorted : Ordered points.toList)
include sorted

theorem drop_countFront {test : Int → Bool}
    (down : ∀ a b, a ≤ b → test b = true → test a = true) :
    points.toList.drop (countFront points test) = points.toList.filter fun p => !test p.ts := by
  refine drop_eq_filter fun i hi => ?_
  have place := lt_countBefore_iff sorted down (Nat.le_refl points.size) (by simpa using hi)
  rw [← Nat.not_lt, countFront, place, Array.getElem_toList]
  simp

/-- The points in front that pass a test are counted as any that do. -/
theorem countFront_eq {test : Int → Bool} (down : ∀ a b, a ≤ b → test b = true → test a = true) :
    countFront points test = points.toList.countP fun p => test p.ts := by
  have within := Nat.le_refl points.size
  have bound := countBefore_le points points.size test
  have front := take_countBefore sorted down within
  rw [List.take_of_length_le (i := points.size) (by simp)] at front
  rw [List.countP_eq_length_filter, ← front, List.length_take, Array.length_toList,
    Nat.min_eq_left bound]
  rfl

/-! ## Look-ups -/

/-- The points from a time on are those that are not before it. -/
theorem toList_since (ts : Int) :
    (since points ts).toList = points.toList.filter fun p => ts ≤ p.ts := by
  have late := drop_countFront sorted (down_lt ts)
  rw [since, toList_extract_size, late]
  congr 1
  funext p
  rw [← decide_not, decide_eq_decide]
  omega

/-- The covering point is the last of those that are not after the time. -/
theorem covering?_eq (ts : Int) :
    covering? points ts = (points.toList.filter fun p => p.ts ≤ ts).getLast? := by
  have within := Nat.le_refl points.size
  have bound := countBefore_le points points.size (· ≤ ts)
  have place := fun i hi => lt_countBefore_iff sorted (down_le ts) within (i := i) hi
  have last := getLast?_filter_take sorted within ts
  rw [List.take_of_length_le (i := points.size) (by simp)] at last
  rw [last, covering?, atOrBefore?, countFront]
  revert bound place
  generalize countBefore points points.size (fun t => decide (t ≤ ts)) = count
  intro bound place
  cases count with
  | zero =>
    -- All points are after the time; the fall-back to the earliest one is filtered out again.
    rw [Nat.zero_sub, Option.filter_eq_none_iff]
    intro p hp
    obtain ⟨hi, rfl⟩ := Array.getElem?_eq_some_iff.1 hp
    simpa using place 0 hi
  | succ count =>
    have held : decide (points[count].ts ≤ ts) = true := (place count (by omega)).1 (by omega)
    rw [Nat.add_sub_cancel, Array.getElem?_eq_getElem (by omega), Option.filter_some, if_pos held]
    exact (Array.getElem?_eq_getElem _).symm

/-- Points left out at the front hide the covering point exactly when it is one of them. -/
theorem covering?_since (ts now : Int) :
    covering? (since points ts) now = (covering? points now).filter fun p => ts ≤ p.ts := by
  have kept : Ordered (since points ts).toList := by
    rw [toList_since sorted]
    exact sorted.of_sublist List.filter_sublist
  rw [covering?_eq kept, covering?_eq sorted, toList_since sorted,
    ← getLast?_filter_since (sorted.of_sublist List.filter_sublist), List.filter_filter,
    List.filter_filter]
  simp only [Bool.and_comm]

end Fronts

end Point

end FxPulse
