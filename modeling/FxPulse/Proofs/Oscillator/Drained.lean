import FxPulse.Proofs.Oscillator.Entry

/-!
# `Proofs/Oscillator/Drained.lean` — nothing is read twice

An entry that has read its source to the end asks again from the time of the last point on, and is handed
the points of that time once more. Its cursor has counted them all, so

> what an entry has just read leaves nothing pending (`BankEntry.pending_readOn`),

as long as the source is `Steady`: asked again from the time of its last point on, it has nothing behind
that time, and no more points of it than before. This says nothing of how the source is made, and a
difference of two series that are cut at different samples will do as well as a price.
-/

set_option autoImplicit false

namespace FxPulse

open Point (Ordered countAt countFront_eq)

/-- What a source answers does not depend on where it is asked from, as far as its last time goes. -/
structure Steady (answer : Option Int → Option (Array Point)) : Prop where
  sorted : ∀ since points, answer since = some points → Ordered points.toList
  since_le : ∀ ts points, answer (some ts) = some points → ∀ p ∈ points.toList, ts ≤ p.ts
  again : ∀ since points last, answer since = some points → points.toList.getLast? = some last →
    ∀ more, answer (some last.ts) = some more →
      (∀ p ∈ more.toList, p.ts ≤ last.ts) ∧ more.size ≤ countAt points.toList last.ts

/-- A cursor that has counted all points is behind them. -/
theorem Cursor.resume_of_size_le {points : Array Point} {c : Cursor} (sorted : Ordered points.toList)
    (upTo : ∀ p ∈ points.toList, p.ts ≤ c.ts) (counted : points.size ≤ c.atTs) :
    c.resume points = points.size := by
  have past : (points.toList.countP fun p => decide (p.ts ≤ c.ts)) = points.size := by
    rw [← Array.length_toList, List.countP_eq_length]
    exact fun p hp => decide_eq_true (upTo p hp)
  rw [Cursor.resume, countFront_eq sorted (Point.down_le _), past]
  omega

namespace BankEntry

variable {e : BankEntry}

theorem cursor_takeAll (points : List Point) :
    (e.takeAll points).cursor
      = points.foldl (fun cursor p => some (Cursor.advance cursor p.ts)) e.cursor := by
  induction points generalizing e with
  | nil => rfl
  | cons p rest ih => exact ih (e := e.take p)

/-- Points that are passed over have been counted, if they have a time that is still to come. -/
theorem countAt_le_of_unread {points : Array Point} (sorted : Ordered points.toList)
    (late : ∀ c, e.cursor = some c → ∀ p ∈ points.toList, c.ts ≤ p.ts) {p : Point}
    (fresh : p ∈ e.unread points) :
    countAt points.toList p.ts
      ≤ Cursor.countedAt e.cursor p.ts + countAt (e.unread points) p.ts := by
  cases cursor : e.cursor with
  | none =>
    have all : e.unread points = points.toList := by
      rw [unread, cursor]
      exact List.drop_zero
    rw [all]
    exact Nat.le_add_left _ _
  | some c =>
    have rest : e.unread points = points.toList.drop (c.resume points) := by rw [unread, cursor]
    have parts : countAt points.toList p.ts
        = countAt (points.toList.take (c.resume points)) p.ts + countAt (e.unread points) p.ts := by
      rw [rest, ← Point.countAt_append, List.take_append_drop]
    rw [parts]
    apply Nat.add_le_add_right
    rw [Cursor.countedAt]
    split
    · -- No more are passed over than have been counted.
      have none_before : Point.countFront points (· < c.ts) = 0 := by
        rw [countFront_eq sorted (Point.down_lt _), List.countP_eq_zero]
        intro q hq
        simpa using late c cursor q hq
      calc countAt (points.toList.take (c.resume points)) p.ts
          ≤ (points.toList.take (c.resume points)).length := List.countP_le_length
        _ ≤ c.resume points := List.length_take_le _ _
        _ ≤ c.atTs := by
          rw [Cursor.resume, none_before, Nat.zero_add]
          exact Nat.min_le_left _ _
    · -- None is passed over that is later than the cursor.
      rename_i other
      have own : c.ts ≤ p.ts := late c cursor p (List.mem_of_mem_drop (rest ▸ fresh))
      have passed : c.resume points ≤ Point.countFront points (· ≤ c.ts) := Nat.min_le_right _ _
      have front := Point.take_countBefore sorted (Point.down_le c.ts) (Nat.le_refl points.size)
      rw [Nat.le_zero, countAt, List.countP_eq_zero]
      intro q hq
      have early : q ∈ points.toList.take (Point.countFront points (· ≤ c.ts)) :=
        List.take_subset_take_left _ passed hq
      rw [Point.countFront, front] at early
      have upTo := of_decide_eq_true (List.mem_filter.1 early).2
      simp
      omega

/-- **What has just been read is not pending.** -/
theorem pending_readOn {provider : Provider} (steady : Steady (provider e.spec.source)) :
    (e.readOn provider).pending provider = [] := by
  cases fresh : (e.pending provider).getLast? with
  | none =>
    have nothing := List.getLast?_eq_none_iff.1 fresh
    rw [readOn, nothing, takeAll_nil]
    exact nothing
  | some last =>
    rw [pending_eq, asked] at fresh
    cases answer : provider e.spec.source (e.cursor.map (·.ts)) with
    | none =>
      rw [answer] at fresh
      cases fresh
    | some points =>
      rw [answer, Option.map_some, Option.getD_some] at fresh
      have sorted := steady.sorted _ _ answer
      have late : ∀ c, e.cursor = some c → ∀ p ∈ points.toList, c.ts ≤ p.ts := by
        intro c cursor
        rw [cursor] at answer
        exact steady.since_le _ _ answer
      have rest : ∃ start, e.unread points = points.toList.drop start := ⟨_, rfl⟩
      obtain ⟨start, rest⟩ := rest
      have mem := List.mem_of_getLast? fresh
      have whole : points.toList.getLast? = some last := by
        rw [rest, List.getLast?_drop] at fresh
        split at fresh
        · cases fresh
        · exact fresh
      have read : e.pending provider = e.unread points := by rw [pending_eq, asked, answer]; rfl
      have cursor : (e.readOn provider).cursor
          = some ⟨last.ts, Cursor.countedAt e.cursor last.ts + countAt (e.unread points) last.ts⟩ := by
        rw [readOn, cursor_takeAll, read]
        refine Cursor.foldl_advance_eq ?_ ?_ fresh
        · rw [rest]
          exact sorted.of_sublist (List.drop_sublist _ _)
        · intro c start p hp
          rw [rest] at hp
          exact late c start p (List.mem_of_mem_drop hp)
      rw [pending, spec_readOn, cursor, Option.map_some]
      cases again : provider e.spec.source (some last.ts) with
      | none => rfl
      | some more =>
        obtain ⟨upTo, few⟩ := steady.again _ _ last answer whole more again
        have counted := Nat.le_trans few (countAt_le_of_unread sorted late mem)
        dsimp only
        rw [unread, cursor]
        dsimp only
        rw [Cursor.resume_of_size_le (steady.sorted _ _ again) upTo counted]
        exact List.drop_of_length_le (Nat.le_of_eq Array.length_toList)

end BankEntry

end FxPulse
