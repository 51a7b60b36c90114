import Std.Data.ExtTreeMap
import FxPulse.History.Series
import FxPulse.Proofs.Failure
import FxPulse.Proofs.History.Search
import Mathlib.Data.List.DropRight

/-!
# `Proofs/History/Series.lean` — what a series keeps of what came

A series is never rearranged. A push puts its point at the end and drops some at the front, so

> what a series holds is the end of all that it has taken in, in order of time.

A series that is as long as what it has taken in has dropped nothing. As long as its capacity is not
reached, age alone decides: it holds what is no older than its retention before the newest point
(`Holds.push`).
-/

set_option autoImplicit false

namespace FxPulse.Series

open FxPulse.Point (Ordered)

/-- What a push says: a point not before the latest is put at the end, and the front is pruned. -/
theorem push_eq_ok_iff {s grown : Series} {p : Point} :
    s.push p = .ok grown ↔
      (∀ last, s.latest? = some last → last.ts ≤ p.ts) ∧
        grown = prune { s with points := s.points.push p } p.ts := by
  unfold push
  cases h : s.latest? with
  | none => simp [eq_comm]
  | some last =>
    by_cases back : p.ts < last.ts
    · simp only [if_pos back, reduceCtorEq, Option.some.injEq, forall_eq', false_iff, not_and]
      intro forward
      omega
    · simp only [if_neg back, Except.ok.injEq, Option.some.injEq, forall_eq', Int.not_lt.1 back,
        true_and, eq_comm]

/-- Pruning takes points from the front only. -/
theorem prune_suffix (s : Series) (now : Int) :
    (s.prune now).points.toList <:+ s.points.toList := by
  show (s.points.extract _ s.points.size).toList <:+ s.points.toList
  rw [toList_extract_size]
  exact List.drop_suffix _ _

section Push

variable {s grown : Series} {p : Point} (accepted : s.push p = .ok grown)
include accepted

theorem push_suffix : grown.points.toList <:+ s.points.toList ++ [p] := by
  rw [(push_eq_ok_iff.1 accepted).2, ← Array.toList_push]
  exact prune_suffix _ _

/-- An accepted point is not before any point of the series. -/
theorem forall_le_of_push (sorted : Ordered s.points.toList) :
    ∀ q ∈ s.points.toList, q.ts ≤ p.ts := by
  have newest := (push_eq_ok_iff.1 accepted).1
  rw [latest?, ← Array.getLast?_toList] at newest
  exact sorted.forall_le newest

theorem push_ordered (sorted : Ordered s.points.toList) : Ordered grown.points.toList :=
  (sorted.concat (forall_le_of_push accepted sorted)).of_sublist (push_suffix accepted).sublist

end Push

/-! ## What retention leaves -/

/-- Of some points, those that are no older than the retention before the last one. -/
def recent (retention : Int) (points : List Point) : List Point :=
  match points.getLast? with
  | some newest => points.filter fun p => newest.ts - retention ≤ p.ts
  | none => []

theorem recent_concat (retention : Int) (points : List Point) (p : Point) :
    recent retention (points ++ [p]) = (points ++ [p]).filter fun q => p.ts - retention ≤ q.ts := by
  rw [recent, List.getLast?_concat]

theorem recent_sublist (retention : Int) (points : List Point) :
    List.Sublist (recent retention points) points := by
  rw [recent]
  split
  · exact List.filter_sublist
  · exact List.nil_sublist _

theorem recent_suffix {points : List Point} (sorted : Ordered points) (retention : Int) :
    recent retention points <:+ points := by
  rw [recent]
  split
  · exact ⟨_, sorted.filter_not_append_filter _⟩
  · exact List.nil_suffix

/-- The last point is never too old. -/
theorem getLast?_recent {retention : Int} (forward : 0 ≤ retention) (points : List Point) :
    (recent retention points).getLast? = points.getLast? := by
  induction points using List.reverseRecOn with
  | nil => rfl
  | append_singleton front p =>
    have held : decide (p.ts - retention ≤ p.ts) = true := decide_eq_true (by omega)
    rw [recent_concat, List.filter_append, List.filter_singleton, held, cond_true,
      List.getLast?_concat, List.getLast?_concat]

/-- Who was too old before stays too old. -/
theorem filter_recent {retention : Int} {points : List Point} {p : Point}
    (forward : ∀ q ∈ points, q.ts ≤ p.ts) :
    (recent retention points).filter (fun q => p.ts - retention ≤ q.ts)
      = points.filter fun q => p.ts - retention ≤ q.ts := by
  rw [recent]
  cases last : points.getLast? with
  | none => rw [List.getLast?_eq_none_iff.1 last]
  | some newest =>
    have later := forward newest (List.mem_of_getLast? last)
    rw [List.filter_filter]
    refine List.filter_congr fun q _ => ?_
    rw [Bool.and_eq_left_iff_imp]
    simp
    omega

/-- The stale points are those before the cutoff. -/
theorem drop_staleCount {points : Array Point} (sorted : Ordered points.toList) (cutoff : Int) :
    points.toList.drop (staleCount points cutoff)
      = points.toList.filter fun p => cutoff ≤ p.ts := by
  refine drop_eq_filter fun i hi => ?_
  rw [Array.length_toList] at hi
  rw [Array.getElem_toList, decide_eq_true_eq, staleCount]
  cases found : points.findIdx? fun p => decide (cutoff ≤ p.ts) with
  | none =>
    have stale := Array.findIdx?_eq_none_iff.1 found points[i] (Array.getElem_mem hi)
    simp at stale ⊢
    omega
  | some k =>
    obtain ⟨hk, first, before⟩ := Array.findIdx?_eq_some_iff_getElem.1 found
    rw [Option.getD_some]
    constructor
    · intro behind
      have order := sorted.le behind (by simpa using hi)
      simp at first order
      omega
    · intro fresh
      by_contra early
      have stale := before i (by omega)
      simp at stale
      omega

/-- Pruning leaves what is not stale, and of that the last points that the capacity has room for. -/
theorem prune_eq_rtake {s : Series} (sorted : Ordered s.points.toList) (now : Int) :
    (s.prune now).points.toList
      = (s.points.toList.filter fun p => now - s.retention ≤ p.ts).rtake s.capacity := by
  show (s.points.extract (max (staleCount s.points _) (s.points.size - s.capacity))
    s.points.size).toList = _
  rw [toList_extract_size, ← drop_staleCount sorted, List.rtake, List.drop_drop, List.length_drop,
    Array.length_toList]
  congr 1
  omega

/-- With room to spare, pruning goes by age alone. -/
theorem prune_eq {s : Series} (sorted : Ordered s.points.toList) (room : s.points.size ≤ s.capacity)
    (now : Int) :
    (s.prune now).points.toList = s.points.toList.filter fun p => now - s.retention ≤ p.ts := by
  rw [prune_eq_rtake sorted]
  apply rtake_of_length_le
  exact Nat.le_trans (List.length_filter_le _ _) (by simpa using room)

/-- The series holds what retention leaves of the points that came, in order of time. -/
structure Holds (s : Series) (came : List Point) : Prop where
  sorted : Ordered came
  points : s.points.toList = recent s.retention came

theorem holds_new (retention : Int) (capacity : Nat) : (new retention capacity).Holds [] :=
  ⟨List.Pairwise.nil, rfl⟩

theorem Holds.latest? {s : Series} {came : List Point} (holds : s.Holds came)
    (forward : 0 ≤ s.retention) : s.latest? = came.getLast? := by
  rw [Series.latest?, ← Array.getLast?_toList, holds.points, getLast?_recent forward]

theorem Holds.push {s grown : Series} {came : List Point} {p : Point} (holds : s.Holds came)
    (forward : 0 ≤ s.retention) (room : s.size < s.capacity) (h : s.push p = .ok grown) :
    grown.Holds (came ++ [p]) ∧ grown.retention = s.retention ∧ grown.capacity = s.capacity := by
  obtain ⟨newest, rfl⟩ := push_eq_ok_iff.1 h
  rw [holds.latest? forward] at newest
  have upTo := holds.sorted.forall_le newest
  have sorted := holds.sorted.concat upTo
  have pushed : (s.points.push p).toList = recent s.retention came ++ [p] := by
    rw [Array.toList_push, holds.points]
  have ordered : Ordered (s.points.push p).toList := by
    rw [pushed]
    exact sorted.of_sublist ((recent_sublist _ _).append_right [p])
  have space : (s.points.push p).size ≤ s.capacity := by
    rw [Array.size_push]
    exact room
  refine ⟨⟨sorted, ?_⟩, rfl, rfl⟩
  rw [prune_eq (s := { s with points := s.points.push p }) ordered space]
  show (s.points.push p).toList.filter _ = recent s.retention (came ++ [p])
  rw [pushed, recent_concat, List.filter_append, List.filter_append, filter_recent upTo]

/-! ## Many pushes -/

/-- Pushes several points, in order, as long as they are accepted. -/
def pushAll (s : Series) (points : List Point) : Except Regression Series := points.foldlM push s

/-! ## Series by key

Prices are kept by instrument and strengths by currency and window, in the same way: a series begins
empty with the first point for its key. -/

section Keyed

variable {κ : Type} [Ord κ] [Std.TransOrd κ]

/-- Every series of a map is in order of time. -/
def AllOrdered (kept : Std.ExtTreeMap κ Series) : Prop :=
  ∀ (key : κ) (series : Series), kept[key]? = some series → Ordered series.points.toList

theorem allOrdered_empty : AllOrdered (∅ : Std.ExtTreeMap κ Series) := by
  intro key series h
  simp at h

/-- The series to push to is in order also when the key has none yet. -/
theorem AllOrdered.getD {kept : Std.ExtTreeMap κ Series} (sorted : AllOrdered kept) (key : κ)
    (retention : Int) (capacity : Nat) :
    Ordered (kept.getD key (new retention capacity)).points.toList := by
  rw [Std.ExtTreeMap.getD_eq_getD_getElem?]
  cases h : kept[key]? with
  | none => exact List.Pairwise.nil
  | some series => exact sorted key series h

theorem AllOrdered.insert {kept : Std.ExtTreeMap κ Series} (sorted : AllOrdered kept) {key : κ}
    {grown : Series} (own : Ordered grown.points.toList) : AllOrdered (kept.insert key grown) := by
  intro other series h
  rw [Std.ExtTreeMap.getElem?_insert] at h
  by_cases same : compare key other = .eq
  · rw [if_pos same] at h
    exact Option.some.inj h ▸ own
  · rw [if_neg same] at h
    exact sorted other series h

end Keyed

end FxPulse.Series
