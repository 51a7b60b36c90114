import FxPulse.Proofs.History.Series

/-!
# `Proofs/History/Retained.lean` — a series is the retained end of what it accepted

A series prunes what it still has, and what it still has depends on how it was pruned before. The steps
leave no trace of that: after any pushes, refused ones among them,

> a series holds the last points, as many as its capacity has room for, of those it accepted that are no
> older than its retention before the newest one.

What carries this from push to push is that pruning a pruned list again is pruning the whole of it
(`Ordered.rtake_filter`). A point that was dropped for lack of room is before all points that were kept,
so if it is fresh they all are, and there are enough of them without it.
-/

set_option autoImplicit false

namespace FxPulse

theorem Point.Ordered.rtake_filter {points : List Point} (sorted : Point.Ordered points)
    (cutoff : Int) {n k : Nat} (h : n ≤ k) :
    ((points.rtake k).filter fun p => cutoff ≤ p.ts).rtake n
      = (points.filter fun p => cutoff ≤ p.ts).rtake n := by
  have parts := rdrop_append_rtake points k
  have whole : points.filter (fun p => cutoff ≤ p.ts)
      = (points.rdrop k).filter (fun p => cutoff ≤ p.ts)
        ++ (points.rtake k).filter fun p => cutoff ≤ p.ts := by
    rw [← List.filter_append, parts]
  rw [whole]
  cases dropped : (points.rdrop k).filter fun p => cutoff ≤ p.ts with
  | nil => simp
  | cons p rest =>
    -- A fresh point was dropped, so all `k` points behind it are fresh.
    have hp : p ∈ points.rdrop k ∧ cutoff ≤ p.ts := by
      have first : p ∈ (points.rdrop k).filter fun p => cutoff ≤ p.ts := by simp [dropped]
      simpa using first
    have fresh : (points.rtake k).filter (fun p => cutoff ≤ p.ts) = points.rtake k := by
      rw [List.filter_eq_self]
      intro q hq
      rw [← parts] at sorted
      have order := (List.pairwise_append.1 sorted).2.2 p hp.1 q hq
      exact decide_eq_true (Int.le_trans hp.2 order)
    have some_dropped : points.rdrop k ≠ [] := List.ne_nil_of_mem hp.1
    rw [fresh, rtake_append_of_le_length]
    rw [length_rtake_of_rdrop_ne_nil some_dropped]
    exact h

namespace Series

open FxPulse.Point (Ordered)

/-! ## Pushes that may be refused -/

/-- The series after a push. One that is refused leaves it as it is. -/
def after (s : Series) (p : Point) : Series :=
  match s.push p with
  | .ok grown => grown
  | .error _ => s

def offerAll (s : Series) (calls : List Point) : Series := calls.foldl after s

/-- The points that are accepted of some pushes, in the order in which they come. -/
def accepted (s : Series) : List Point → List Point
  | [] => []
  | p :: rest =>
    match s.push p with
    | .ok grown => p :: grown.accepted rest
    | .error _ => s.accepted rest

theorem offerAll_append (s : Series) (calls more : List Point) :
    s.offerAll (calls ++ more) = (s.offerAll calls).offerAll more := List.foldl_append

theorem accepted_append (s : Series) (calls more : List Point) :
    s.accepted (calls ++ more) = s.accepted calls ++ (s.offerAll calls).accepted more := by
  induction calls generalizing s with
  | nil => rfl
  | cons p rest ih =>
    rw [List.cons_append, accepted, accepted, offerAll, List.foldl_cons, ← offerAll, after]
    cases s.push p with
    | ok grown => simp [ih]
    | error r => simp [ih]

section Concat

variable {s grown : Series} {calls : List Point} {p : Point} {r : Regression}

theorem offerAll_concat_of_error (refused : (s.offerAll calls).push p = .error r) :
    s.offerAll (calls ++ [p]) = s.offerAll calls ∧ s.accepted (calls ++ [p]) = s.accepted calls := by
  rw [offerAll_append, accepted_append]
  generalize s.offerAll calls = now at refused ⊢
  simp [offerAll, after, accepted, refused]

theorem offerAll_concat_of_ok (pushed : (s.offerAll calls).push p = .ok grown) :
    s.offerAll (calls ++ [p]) = grown ∧ s.accepted (calls ++ [p]) = s.accepted calls ++ [p] := by
  rw [offerAll_append, accepted_append]
  generalize s.offerAll calls = now at pushed ⊢
  simp [offerAll, after, accepted, pushed]

end Concat

/-- What a refusal says: the point is before the latest one, and both times are named. -/
theorem push_eq_error_iff {s : Series} {p : Point} {r : Regression} :
    s.push p = .error r ↔
      ∃ last, s.latest? = some last ∧ p.ts < last.ts ∧ r = ⟨last.ts, p.ts⟩ := by
  unfold push
  cases s.latest? with
  | none => simp
  | some last =>
    by_cases back : p.ts < last.ts
    · simp [back, eq_comm]
    · simp [back]

/-! ## What pushes leave -/

/-- The series is what retention and capacity leave of the points that came, in order of time. -/
structure Retains (s : Series) (came : List Point) : Prop where
  forward : 0 ≤ s.retention
  room : 0 < s.capacity
  sorted : Ordered came
  points : s.points.toList = (recent s.retention came).rtake s.capacity

theorem retains_new {retention : Int} (forward : 0 ≤ retention) (capacity : Nat) :
    (new retention capacity).Retains [] where
  forward := forward
  room := Nat.le_max_right capacity 1
  sorted := List.Pairwise.nil
  points := by simp [new, recent]

section Retains

variable {s grown : Series} {came : List Point} {p : Point} (retains : s.Retains came)
include retains

theorem Retains.latest?_eq : s.latest? = came.getLast? := by
  rw [latest?, ← Array.getLast?_toList, retains.points, getLast?_rtake retains.room,
    getLast?_recent retains.forward]

theorem Retains.suffix : s.points.toList <:+ came := by
  rw [retains.points]
  exact (List.drop_suffix _ _).trans (recent_suffix retains.sorted _)

/-- Nothing is left only of nothing. -/
theorem Retains.isEmpty_iff : s.isEmpty = true ↔ came = [] := by
  have last := retains.latest?_eq
  rw [latest?, ← Array.getLast?_toList] at last
  rw [isEmpty, Array.isEmpty_iff, ← Array.toList_eq_nil_iff, ← List.getLast?_eq_none_iff, last,
    List.getLast?_eq_none_iff]

theorem Retains.forall_le (accepted : s.push p = .ok grown) : ∀ q ∈ came, q.ts ≤ p.ts := by
  have newest := (push_eq_ok_iff.1 accepted).1
  rw [retains.latest?_eq] at newest
  exact retains.sorted.forall_le newest

theorem Retains.push (accepted : s.push p = .ok grown) :
    grown.Retains (came ++ [p]) ∧ grown.retention = s.retention ∧ grown.capacity = s.capacity := by
  have upTo := retains.forall_le accepted
  have sorted : Ordered (came ++ [p]) := retains.sorted.concat upTo
  have held : Ordered (recent s.retention came ++ [p]) :=
    sorted.of_sublist ((recent_sublist _ _).append_right [p])
  have pushed : (s.points.push p).toList
      = (recent s.retention came ++ [p]).rtake (s.capacity + 1) := by
    rw [Array.toList_push, retains.points, List.rtake_concat_succ]
  have ordered : Ordered (s.points.push p).toList := by
    rw [pushed]
    exact held.of_sublist (List.drop_sublist _ _)
  obtain ⟨-, rfl⟩ := push_eq_ok_iff.1 accepted
  refine ⟨⟨retains.forward, retains.room, sorted, ?_⟩, rfl, rfl⟩
  rw [prune_eq_rtake (s := { s with points := s.points.push p }) ordered]
  show ((s.points.push p).toList.filter fun q => p.ts - s.retention ≤ q.ts).rtake s.capacity
    = (recent s.retention (came ++ [p])).rtake s.capacity
  -- The push finds room for one more, and pruning then takes the end of that end.
  rw [pushed, held.rtake_filter _ (Nat.le_succ _), recent_concat, List.filter_append,
    List.filter_append, filter_recent upTo]

theorem Retains.offerAll (calls : List Point) :
    (s.offerAll calls).Retains (came ++ s.accepted calls) ∧
      (s.offerAll calls).retention = s.retention ∧ (s.offerAll calls).capacity = s.capacity := by
  induction calls generalizing s came with
  | nil => simpa [Series.offerAll, Series.accepted] using retains
  | cons p rest ih =>
    rw [Series.offerAll, List.foldl_cons, ← Series.offerAll, after, Series.accepted]
    cases pushed : s.push p with
    | error r => exact ih retains
    | ok grown =>
      obtain ⟨next, retention, capacity⟩ := retains.push pushed
      have later := ih next
      rw [List.append_assoc, List.singleton_append, retention, capacity] at later
      exact later

/-- Where retention leaves no more than there is room for, a look-up finds what it would find among all
points that came, unless that is too old. -/
theorem Retains.covering?_eq (roomy : (recent s.retention came).length ≤ s.capacity)
    {newest : Point} (last : came.getLast? = some newest) (ts : Int) :
    s.covering? ts
      = (Point.covering? came.toArray ts).filter fun p => newest.ts - s.retention ≤ p.ts := by
  have held : s.points.toList = came.filter fun p => newest.ts - s.retention ≤ p.ts := by
    rw [retains.points, rtake_of_length_le roomy, recent, last]
  have kept : Ordered s.points.toList := by
    rw [held]
    exact retains.sorted.of_sublist List.filter_sublist
  have all : Ordered came.toArray.toList := retains.sorted
  rw [covering?, Point.covering?_eq kept, Point.covering?_eq all, held,
    ← Point.getLast?_filter_since (retains.sorted.of_sublist List.filter_sublist)]
  simp only [List.filter_filter, Bool.and_comm]

end Retains

/-- **A series is the retained end of what it accepted.** After any pushes to a new series: the next one
is refused exactly when it is before the last point accepted, with both times named, and a refused one
changes nothing. The points held are the last ones, as many as there is room for, of the points accepted
that are no older than the retention before the newest. So they are in order of time, the latest is the
last one accepted, and there are never more than the capacity. -/
theorem offerAll_retained {retention : Int} (forward : 0 ≤ retention) (capacity : Nat)
    (calls : List Point) :
    let s := (new retention capacity).offerAll calls
    let came := (new retention capacity).accepted calls
    (∀ p r, s.push p = .error r ↔
      ∃ last, came.getLast? = some last ∧ p.ts < last.ts ∧ r = ⟨last.ts, p.ts⟩) ∧
    (∀ p r, s.push p = .error r →
      (new retention capacity).offerAll (calls ++ [p]) = s ∧
        (new retention capacity).accepted (calls ++ [p]) = came) ∧
    (∀ p grown, s.push p = .ok grown →
      (new retention capacity).offerAll (calls ++ [p]) = grown ∧
        (new retention capacity).accepted (calls ++ [p]) = came ++ [p]) ∧
    s.points.toList = (recent retention came).rtake (max capacity 1) ∧
    Ordered s.points.toList ∧ s.latest? = came.getLast? ∧ s.size ≤ max capacity 1 := by
  intro s came
  obtain ⟨retains, retention_eq, capacity_eq⟩ :=
    (retains_new forward capacity).offerAll calls
  rw [List.nil_append] at retains
  have held : s.points.toList = (recent retention came).rtake (max capacity 1) := by
    have points := retains.points
    rw [retention_eq, capacity_eq] at points
    exact points
  refine ⟨?_, ?_, ?_, held, ?_, retains.latest?_eq, ?_⟩
  · intro p r
    rw [push_eq_error_iff, retains.latest?_eq]
  · intro p r refused
    exact offerAll_concat_of_error refused
  · intro p grown pushed
    exact offerAll_concat_of_ok pushed
  · rw [held]
    exact retains.sorted.of_sublist ((List.drop_sublist _ _).trans (recent_sublist _ _))
  · rw [size, ← Array.length_toList, held]
    exact length_rtake_le _ _

/-- Room for two points, kept for a minute: one point is too old in the end, one comes too late and is
refused, and of two at one time the first has to go. -/
theorem offerAll_retained_crowded :
    let calls : List Point :=
      [⟨0, 1.0⟩, ⟨30000, 1.25⟩, ⟨30000, 1.5⟩, ⟨10000, 1.75⟩, ⟨90000, 2.0⟩]
    (0 : Int) ≤ 60000 ∧
    (new 60000 2).accepted calls = [⟨0, 1.0⟩, ⟨30000, 1.25⟩, ⟨30000, 1.5⟩, ⟨90000, 2.0⟩] ∧
    ((new 60000 2).offerAll calls).points.toList = [⟨30000, 1.5⟩, ⟨90000, 2.0⟩] ∧
    ((new 60000 2).offerAll calls).push ⟨80000, 1.0⟩ = .error ⟨90000, 80000⟩ := by
  intro calls
  have came : (new 60000 2).accepted calls
      = [⟨0, 1.0⟩, ⟨30000, 1.25⟩, ⟨30000, 1.5⟩, ⟨90000, 2.0⟩] := by decide +kernel
  have forward : (0 : Int) ≤ 60000 := by decide
  obtain ⟨refuses, -, -, held, -⟩ := offerAll_retained forward 2 calls
  rw [came] at refuses held
  refine ⟨forward, came, held.trans (by decide +kernel), ?_⟩
  exact (refuses _ _).2 ⟨⟨90000, 2.0⟩, rfl, by decide, rfl⟩

end Series

end FxPulse
