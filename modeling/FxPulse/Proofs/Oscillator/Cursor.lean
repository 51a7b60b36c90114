import FxPulse.Oscillator.Bank
import FxPulse.Proofs.History.Search
import Mathlib.Data.List.Induction

/-!
# `Proofs/Oscillator/Cursor.lean` — a time and a number are a place

Points may share a time, and the end of a source that an entry is handed begins now here, now there. So
a cursor is no place in a list: it is the time of the last point read, with the number of points read at
that time. That is enough to find the place again, in every end of the source that

* holds all points not yet read, and
* does not begin amid points that share a time.

> In such an end, the cursor resumes just behind what has been read (`resume_after`).

The second condition is what the number needs: it counts from the first point of its time on, so that
one has to be there, or all of them have to be gone.
-/

set_option autoImplicit false

namespace FxPulse

namespace Point

/-- No time is on both sides. -/
def Apart (before after : List Point) : Prop := ∀ p ∈ before, ∀ q ∈ after, p.ts ≠ q.ts

/-- How many of the points have one time. -/
def countAt (points : List Point) (ts : Int) : Nat := points.countP fun p => p.ts = ts

theorem countAt_append (points others : List Point) (ts : Int) :
    countAt (points ++ others) ts = countAt points ts + countAt others ts := List.countP_append

/-- A time of the points behind is none of the points in front. -/
theorem Apart.countAt_append {before after : List Point} (apart : Apart before after) {p : Point}
    (hp : p ∈ after) : countAt (before ++ after) p.ts = countAt after p.ts := by
  have none_before : countAt before p.ts = 0 := by
    rw [countAt, List.countP_eq_zero]
    intro q hq
    simpa using apart q hq p hp
  rw [Point.countAt_append, none_before, Nat.zero_add]

end Point

open Point (Apart Ordered countAt countFront_eq)

namespace Cursor

/-- Where the cursor stands behind some points. -/
def after (points : List Point) : Option Cursor :=
  points.foldl (fun cursor p => some (advance cursor p.ts)) none

theorem after_concat (points : List Point) (p : Point) :
    after (points ++ [p]) = some (advance (after points) p.ts) := List.foldl_concat ..

/-- The points of a time that a cursor has counted. -/
def countedAt : Option Cursor → Int → Nat
  | some c, ts => if c.ts = ts then c.atTs else 0
  | none, _ => 0

/-- A cursor behind some more points stands at the last of them. The points of its time are counted on. -/
theorem foldl_advance_eq {cursor : Option Cursor} {points : List Point} (sorted : Ordered points)
    (late : ∀ c, cursor = some c → ∀ p ∈ points, c.ts ≤ p.ts) {last : Point}
    (h : points.getLast? = some last) :
    points.foldl (fun cursor p => some (advance cursor p.ts)) cursor
      = some ⟨last.ts, countedAt cursor last.ts + countAt points last.ts⟩ := by
  induction points using List.reverseRecOn generalizing last with
  | nil => cases h
  | append_singleton front p ih =>
    obtain rfl : p = last := by simpa using h
    have own : countAt [p] p.ts = 1 := by simp [countAt]
    rw [List.foldl_concat, Point.countAt_append, own]
    cases hlast : front.getLast? with
    | none =>
      obtain rfl := List.getLast?_eq_none_iff.1 hlast
      cases cursor with
      | none => rfl
      | some c =>
        by_cases same : c.ts = p.ts
        · simp [advance, countedAt, countAt, same]
        · simp [advance, countedAt, countAt, same]
    | some q =>
      have order := List.pairwise_append.1 sorted
      rw [ih order.1 (fun c start p hp => late c start p (List.mem_append_left _ hp)) hlast]
      by_cases same : q.ts = p.ts
      · rw [advance, if_pos same, same, Nat.add_assoc]
      · -- The time is a new one: all that was read before is earlier.
        have next := order.2.2 q (List.mem_of_getLast? hlast) p (by simp)
        have none_before : countAt front p.ts = 0 := by
          rw [countAt, List.countP_eq_zero]
          intro r hr
          have up := Ordered.le_getLast order.1 hlast r hr
          simp
          omega
        have none_counted : countedAt cursor p.ts = 0 := by
          cases cursor with
          | none => rfl
          | some c =>
            have up := late c rfl q (List.mem_append_left _ (List.mem_of_getLast? hlast))
            exact if_neg (by omega)
        rw [advance, if_neg same, none_before, none_counted]

/-- **What a cursor remembers** of points in order of time. -/
theorem after_eq {points : List Point} (sorted : Ordered points) {last : Point}
    (h : points.getLast? = some last) : after points = some ⟨last.ts, countAt points last.ts⟩ := by
  have start : ∀ c : Cursor, none = some c → ∀ p ∈ points, c.ts ≤ p.ts := fun c none_read => by
    cases none_read
  rw [after, foldl_advance_eq sorted start h, countedAt, Nat.zero_add]

/-- Points up to a time are those before it and those at it. -/
theorem countP_lt_add_countAt {points : List Point} {ts : Int} (upTo : ∀ p ∈ points, p.ts ≤ ts) :
    (points.countP fun p => p.ts < ts) + countAt points ts = points.length := by
  rw [List.length_eq_countP_add_countP fun p => decide (p.ts < ts), countAt]
  congr 1
  refine List.countP_congr fun p hp => ?_
  have early := upTo p hp
  simp
  omega

/-- **Where a cursor resumes.** What has been read are the points `gone` and `front`; the end of the
source that is handed over holds `front` and the points not yet read. -/
theorem resume_after {gone front unread : List Point} {points : Array Point} {last : Point}
    (handed : points.toList = front ++ unread) (sorted : Ordered (gone ++ points.toList))
    (apart : Apart gone points.toList) (read : (gone ++ front).getLast? = some last) :
    resume ⟨last.ts, countAt (gone ++ front) last.ts⟩ points = front.length := by
  have inner : Ordered points.toList := (List.pairwise_append.1 sorted).2.1
  rw [handed, ← List.append_assoc] at sorted
  have order := List.pairwise_append.1 sorted
  have upTo : ∀ p ∈ front, p.ts ≤ last.ts := fun p hp =>
    Ordered.le_getLast order.1 read p (List.mem_append_right _ hp)
  have from_last : ∀ q ∈ unread, last.ts ≤ q.ts := order.2.2 last (List.mem_of_getLast? read)
  have unread_before : (unread.countP fun p => p.ts < last.ts) = 0 := by
    rw [List.countP_eq_zero]
    intro q hq
    have late := from_last q hq
    simpa using late
  have front_upTo : (front.countP fun p => p.ts ≤ last.ts) = front.length := by
    rw [List.countP_eq_length]
    intro p hp
    simpa using upTo p hp
  rw [resume, countFront_eq inner (Point.down_lt _), countFront_eq inner (Point.down_le _), handed,
    List.countP_append, List.countP_append, unread_before, front_upTo, Nat.add_zero]
  rw [handed] at apart
  cases hfront : front with
  | nil =>
    -- The time of the cursor is gone altogether.
    rw [hfront, List.append_nil] at read
    have unread_after : (unread.countP fun p => p.ts ≤ last.ts) = 0 := by
      rw [List.countP_eq_zero]
      intro q hq
      have late := from_last q hq
      have other := apart last (List.mem_of_getLast? read) q (List.mem_append_right _ hq)
      simp
      omega
    rw [unread_after]
    exact Nat.min_zero _
  | cons first others =>
    -- All points at the time of the cursor that have been read are there to be counted over.
    rw [← hfront]
    have last_front : last ∈ front := by
      rw [hfront, List.getLast?_append_cons, ← hfront] at read
      exact List.mem_of_getLast? read
    have apart_front : Apart gone front := fun p hp q hq => apart p hp q (List.mem_append_left _ hq)
    rw [apart_front.countAt_append last_front, countP_lt_add_countAt upTo]
    exact Nat.min_eq_left (Nat.le_add_right _ _)

end Cursor

end FxPulse
