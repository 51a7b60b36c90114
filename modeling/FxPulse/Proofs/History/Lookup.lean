import FxPulse.Proofs.History.Retained

/-!
# `Proofs/History/Lookup.lean` — look-ups in a series that forgets

A look-up searches what a series still holds, and means all that came into it. Since a series forgets
from the front and from nowhere else,

> what covers a time is the point last written of those with the greatest time not after it, among all
> that were ever accepted; nothing does exactly if all points up to that time are gone.

The earliest point comes in only where nothing covers the time, so it is never taken for a point that does.

A series can lie in two runs, as it does in a ring that has wrapped around. Then a search first asks which
run to search, and a time that many points share can run on from one into the other. The second part of
the file says that none of this shows.
-/

set_option autoImplicit false

namespace FxPulse

namespace Point

/-! ## The point last written up to a time -/

/-- Among some points in the order in which they came, one that is not after a time, with no later one up to
that time, and none of its own time behind it. -/
def IsLastUpTo (came : List Point) (ts : Int) (p : Point) : Prop :=
  ∃ front back, came = front ++ p :: back ∧ p.ts ≤ ts ∧ (∀ q ∈ came, q.ts ≤ ts → q.ts ≤ p.ts) ∧
    ∀ q ∈ back, q.ts ≠ p.ts

/-- In order of time, the point last written up to a time is the last one that is not after it. -/
theorem isLastUpTo_iff {came : List Point} (sorted : Ordered came) {ts : Int} {p : Point} :
    IsLastUpTo came ts p ↔ (came.filter fun q => q.ts ≤ ts).getLast? = some p := by
  rw [List.getLast?_eq_head?_reverse, ← List.filter_reverse, List.head?_filter,
    find?_reverse_eq_some_iff]
  simp only [decide_eq_true_eq, decide_eq_false_iff_not, Int.not_le]
  constructor
  · rintro ⟨front, back, rfl, upTo, greatest, last⟩
    refine ⟨upTo, front, back, rfl, fun q hq => ?_⟩
    -- A point behind `p` is no earlier, so one that is up to the time would have the time of `p`.
    have order := (List.pairwise_cons.1 (List.pairwise_append.1 sorted).2.1).1 q hq
    have other := last q hq
    have upper := greatest q (by simp [hq])
    omega
  · rintro ⟨upTo, front, back, rfl, late⟩
    refine ⟨front, back, rfl, upTo, fun q hq within => ?_, fun q hq => ?_⟩
    · rw [List.mem_append, List.mem_cons] at hq
      rcases hq with before | rfl | behind
      · exact (List.pairwise_append.1 sorted).2.2 q before p List.mem_cons_self
      · exact Int.le_refl _
      · have after := late q behind
        omega
    · have after := late q hq
      omega

/-- What covers a time among the last of some points covers it among all of them. -/
theorem IsLastUpTo.of_covering? {came pruned : List Point} {points : Array Point}
    (sorted : Ordered came) (whole : came = pruned ++ points.toList) {ts : Int} {p : Point}
    (found : covering? points ts = some p) : IsLastUpTo came ts p := by
  have kept : Ordered points.toList := by
    rw [whole] at sorted
    exact (List.pairwise_append.1 sorted).2.1
  rw [covering?_eq kept] at found
  rw [isLastUpTo_iff sorted, whole, List.filter_append, List.getLast?_append, found, Option.some_or]

theorem covering?_eq_none_iff {points : Array Point} (sorted : Ordered points.toList) {ts : Int} :
    covering? points ts = none ↔ ∀ p ∈ points.toList, ts < p.ts := by
  rw [covering?_eq sorted, List.getLast?_eq_none_iff, List.filter_eq_nil_iff]
  simp only [decide_eq_true_eq, Int.not_le]

/-- Where nothing covers a time, the earliest point is found instead. -/
theorem atOrBefore?_eq {points : Array Point} (sorted : Ordered points.toList) (ts : Int) :
    atOrBefore? points ts = (covering? points ts).or points[0]? := by
  have bound := countBefore_le points points.size (· ≤ ts)
  have last := getLast?_filter_take sorted (Nat.le_refl points.size) ts
  rw [List.take_of_length_le (i := points.size) (by simp), ← covering?_eq sorted] at last
  rw [last, atOrBefore?, countFront]
  cases counted : countBefore points points.size (· ≤ ts) with
  | zero => rw [Nat.zero_sub, Option.none_or]
  | succ count =>
    dsimp only
    rw [Nat.add_sub_cancel, Array.getElem?_eq_getElem (by omega), Option.some_or]

theorem atOrBefore?_eq_none_iff {points : Array Point} {ts : Int} :
    atOrBefore? points ts = none ↔ points = #[] := by
  have bound := countBefore_le points points.size (· ≤ ts)
  rw [atOrBefore?, countFront, Array.getElem?_eq_none_iff, ← Array.size_eq_zero_iff]
  omega

end Point

/-! ## Points in two runs -/

/-- Points as a ring has them in storage: from its first point up to the end of the storage, and on from
the beginning of the storage. Before the ring has wrapped around there is nothing in the second run. -/
structure Runs where
  front : Array Point
  back : Array Point

namespace Runs

def points (r : Runs) : Array Point := r.front ++ r.back

/-- The point at a place. Places are counted through both runs. -/
def at? (r : Runs) (i : Nat) : Option Point :=
  if i < r.front.size then r.front[i]? else r.back[i - r.front.size]?

/-- The number of points at the front whose time passes the test. The first point of the second run says in
which of the runs they come to an end. -/
def countFront (r : Runs) (test : Int → Bool) : Nat :=
  if r.back[0]?.any fun p => test p.ts then r.front.size + Point.countFront r.back test
  else Point.countFront r.front test

def atOrBefore? (r : Runs) (ts : Int) : Option Point :=
  match r.countFront (· ≤ ts) with
  | 0 => r.at? 0
  | count + 1 => r.at? count

def covering? (r : Runs) (ts : Int) : Option Point := (r.atOrBefore? ts).filter (·.ts ≤ ts)

def since (r : Runs) (ts : Int) : Array Point := r.points.extract (r.countFront (· < ts)) r.points.size

open Point (Ordered)

theorem at?_eq (r : Runs) (i : Nat) : r.at? i = r.points[i]? := Array.getElem?_append.symm

section Ordered

variable {r : Runs} (sorted : Ordered r.points.toList)
include sorted

/-- **Two runs are searched like one.** If the first point of the second run passes, all of the first run
do; if it fails, so does all of the second run. -/
theorem countFront_eq {test : Int → Bool} (down : ∀ a b, a ≤ b → test b = true → test a = true) :
    r.countFront test = Point.countFront r.points test := by
  have whole := sorted
  rw [points, Array.toList_append] at whole
  obtain ⟨front, back, across⟩ := List.pairwise_append.1 whole
  rw [Point.countFront_eq sorted down, points, Array.toList_append, List.countP_append, countFront,
    Point.countFront_eq front down, Point.countFront_eq back down, ← Array.getElem?_toList]
  cases behind : r.back.toList with
  | nil => simp
  | cons p rest =>
    rw [behind] at back across
    rw [List.getElem?_cons_zero, Option.any_some]
    by_cases passes : test p.ts = true
    · have all : (r.front.toList.countP fun q => test q.ts) = r.front.size := by
        rw [← Array.length_toList, List.countP_eq_length]
        exact fun q hq => down _ _ (across q hq p List.mem_cons_self) passes
      rw [if_pos passes, all]
    · have nothing : ((p :: rest).countP fun q => test q.ts) = 0 := by
        rw [List.countP_eq_zero]
        refine List.forall_mem_cons.2 ⟨passes, fun q hq holds => passes ?_⟩
        exact down _ _ ((List.pairwise_cons.1 back).1 q hq) holds
      rw [if_neg passes, nothing, Nat.add_zero]

theorem atOrBefore?_eq (ts : Int) : r.atOrBefore? ts = Point.atOrBefore? r.points ts := by
  rw [atOrBefore?, countFront_eq sorted (Point.down_le ts), Point.atOrBefore?]
  cases Point.countFront r.points (· ≤ ts) with
  | zero => exact r.at?_eq 0
  | succ count => exact r.at?_eq count

theorem covering?_eq (ts : Int) : r.covering? ts = Point.covering? r.points ts := by
  rw [covering?, atOrBefore?_eq sorted, Point.covering?]

theorem since_eq (ts : Int) : r.since ts = Point.since r.points ts := by
  rw [since, countFront_eq sorted (Point.down_lt ts), Point.since]

end Ordered

end Runs

namespace Series

open FxPulse.Point (IsLastUpTo)

/-- **No look-up finds a wrong point.** After any pushes to a new series, refused ones among them, all that
was accepted is what has been pruned and then what is held. What covers a time is the point last written up
to it of all that were accepted, and nothing covers it exactly if every point held is after it. A look-up
finds what covers the time, or else the earliest point held, and nothing only as long as nothing has come.
The points since a time are those held that are not before it. Look-ups in a copy of the points answer the
same, and so do look-ups in the points in two runs, wherever the second one begins. -/
theorem lookUps_retained {retention : Int} (forward : 0 ≤ retention) (capacity : Nat)
    (calls : List Point) :
    let s := (new retention capacity).offerAll calls
    let came := (new retention capacity).accepted calls
    ∃ pruned, came = pruned ++ s.points.toList ∧
      (∀ ts p, s.covering? ts = some p → IsLastUpTo came ts p) ∧
      (∀ ts, s.covering? ts = none ↔ ∀ p ∈ s.points.toList, ts < p.ts) ∧
      (∀ ts, s.atOrBefore? ts = (s.covering? ts).or s.earliest?) ∧
      (∀ ts, s.atOrBefore? ts = none ↔ s.isEmpty = true) ∧ (s.isEmpty = true ↔ came = []) ∧
      (∀ ts, (s.since ts).toList = s.points.toList.filter fun p => ts ≤ p.ts) ∧
      (∀ ts, Point.atOrBefore? s.points ts = s.atOrBefore? ts ∧
        Point.covering? s.points ts = s.covering? ts) ∧
      ∀ r : Runs, r.points = s.points → ∀ ts, r.atOrBefore? ts = s.atOrBefore? ts ∧
        r.covering? ts = s.covering? ts ∧ r.since ts = s.since ts := by
  intro s came
  obtain ⟨retains, -, -⟩ := (retains_new forward capacity).offerAll calls
  rw [List.nil_append] at retains
  have sorted : Point.Ordered came := retains.sorted
  obtain ⟨pruned, whole⟩ := retains.suffix
  have kept : Point.Ordered s.points.toList := sorted.of_sublist retains.suffix.sublist
  refine ⟨pruned, whole.symm, ?_, ?_, ?_, ?_, ?_, ?_, fun ts => ⟨rfl, rfl⟩, ?_⟩
  · intro ts p found
    exact IsLastUpTo.of_covering? sorted whole.symm found
  · intro ts
    exact Point.covering?_eq_none_iff kept
  · intro ts
    exact Point.atOrBefore?_eq kept ts
  · intro ts
    rw [isEmpty, Array.isEmpty_iff]
    exact Point.atOrBefore?_eq_none_iff
  · exact retains.isEmpty_iff
  · intro ts
    exact Point.toList_since kept ts
  · rintro r same ts
    have ordered : Point.Ordered r.points.toList := by rwa [same]
    rw [Runs.atOrBefore?_eq ordered, Runs.covering?_eq ordered, Runs.since_eq ordered, same]
    exact ⟨rfl, rfl, rfl⟩

/-- Room for three points, kept for a minute, and five accepted ones: of two at half a minute only the last
written is still there, two at one and a half minutes stand in different runs, and one came too late. -/
theorem lookUps_retained_shared :
    let calls : List Point :=
      [⟨0, 1.0⟩, ⟨30000, 1.25⟩, ⟨30000, 1.5⟩, ⟨10000, 1.75⟩, ⟨90000, 2.0⟩, ⟨90000, 2.25⟩]
    let s := (new 60000 3).offerAll calls
    let r : Runs := ⟨#[⟨30000, 1.5⟩, ⟨90000, 2.0⟩], #[⟨90000, 2.25⟩]⟩
    (0 : Int) ≤ 60000 ∧
    IsLastUpTo ((new 60000 3).accepted calls) 30000 ⟨30000, 1.5⟩ ∧
    s.covering? 29999 = none ∧ s.atOrBefore? 29999 = some ⟨30000, 1.5⟩ ∧
    (s.since 90000).toList = [⟨90000, 2.0⟩, ⟨90000, 2.25⟩] ∧
    r.covering? 90000 = some ⟨90000, 2.25⟩ := by
  intro calls s r
  have forward : (0 : Int) ≤ 60000 := by decide
  have held : s.points = #[⟨30000, 1.5⟩, ⟨90000, 2.0⟩, ⟨90000, 2.25⟩] := by decide +kernel
  obtain ⟨-, -, covers, uncovered, finds, -, -, since, -, runs⟩ := lookUps_retained forward 3 calls
  have nothing : s.covering? 29999 = none := (uncovered 29999).2 (by rw [held]; decide)
  refine ⟨forward, covers 30000 _ (by decide +kernel), nothing, ?_, ?_, ?_⟩
  · rw [finds, nothing]
    decide +kernel
  · rw [since, held]
    decide +kernel
  · rw [(runs r held.symm 90000).2.1]
    decide +kernel

end Series

end FxPulse
