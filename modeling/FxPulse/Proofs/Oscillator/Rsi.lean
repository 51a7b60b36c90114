import FxPulse.Oscillator.Rsi

/-!
# `Proofs/Oscillator/Rsi.lean` — how far relative strength has got

Relative strength has a value once it has seen a period of changes, and one sample more than changes. What
it keeps up to then is sums and a count; from then on it keeps averages and no count at all, and samples
that are not finite leave it as it is. So the number of samples is no field of it, and `HasSeen` says what
can be said of a state from that number:

> there is a value exactly if more finite samples than one period were seen (`isSome_ofValues?_iff`).
-/

set_option autoImplicit false

namespace FxPulse.Rsi

/-- A state that some number of samples can have left. -/
inductive HasSeen : Rsi → Nat → Prop where
  | nothing {period : Nat} {gains losses : Float} (pos : 0 < period) :
    HasSeen ⟨period, none, .seeding gains losses 0⟩ 0
  | seeding {period changes : Nat} {last gains losses : Float} (few : changes < period) :
    HasSeen ⟨period, some last, .seeding gains losses changes⟩ (changes + 1)
  | running {period samples : Nat} {last gain loss : Float} (enough : period < samples) :
    HasSeen ⟨period, some last, .running gain loss⟩ samples

theorem hasSeen_new (period : Nat) : (new period).HasSeen 0 :=
  .nothing (Nat.lt_of_lt_of_le Nat.one_pos (Nat.le_max_right period 1))

theorem period_push (r : Rsi) (x : Float) : (r.push x).period = r.period := by
  unfold push
  split
  · rfl
  · split <;> rfl

theorem push_of_not_finite (r : Rsi) {x : Float} (h : x.isFinite = false) : r.push x = r := by
  rw [push, h]
  rfl

theorem HasSeen.push {r : Rsi} {samples : Nat} (seen : r.HasSeen samples) {x : Float}
    (finite : x.isFinite = true) : (r.push x).HasSeen (samples + 1) := by
  unfold Rsi.push
  rw [finite]
  cases seen with
  | nothing pos => exact .seeding pos
  | @seeding period changes last gains losses few =>
    dsimp only [Bool.not_true, Bool.false_eq_true, if_false, RsiPhase.change]
    -- The change that fills the period turns sums into averages.
    by_cases more : changes + 1 < period
    · rw [if_pos more]
      exact .seeding more
    · rw [if_neg more]
      exact .running (by omega)
  | running enough => exact .running (Nat.lt_succ_of_lt enough)

/-- Only finite values are samples. -/
theorem HasSeen.foldl_push {r : Rsi} {samples : Nat} (seen : r.HasSeen samples) (values : List Float) :
    (values.foldl Rsi.push r).HasSeen (samples + values.countP (·.isFinite)) := by
  induction values generalizing r samples with
  | nil => exact seen
  | cons x rest ih =>
    rw [List.foldl_cons, List.countP_cons]
    cases finite : x.isFinite with
    | true =>
      have next := ih (seen.push finite)
      rwa [Nat.add_assoc, Nat.add_comm 1] at next
    | false =>
      rw [push_of_not_finite r finite]
      exact ih seen

theorem period_foldl_push (r : Rsi) (values : List Float) :
    (values.foldl push r).period = r.period := by
  induction values generalizing r with
  | nil => rfl
  | cons x rest ih => exact (ih (r.push x)).trans (period_push r x)

theorem HasSeen.isSome_value?_iff {r : Rsi} {samples : Nat} (seen : r.HasSeen samples) :
    r.value?.isSome = true ↔ r.period < samples := by
  cases seen with
  | nothing pos => simp [value?]
  | seeding few =>
    simp only [value?, Option.isSome_none, Bool.false_eq_true, false_iff]
    omega
  | running enough =>
    refine iff_of_true ?_ enough
    unfold value?
    dsimp only
    split <;> rfl

/-- **There is a value exactly after more finite samples than one period.** -/
theorem isSome_ofValues?_iff (values : List Float) (period : Nat) :
    (ofValues? values period).isSome = true ↔ max period 1 < values.countP (·.isFinite) := by
  have seen := (hasSeen_new period).foldl_push values
  rw [ofValues?, seen.isSome_value?_iff, period_foldl_push, Nat.zero_add]
  rfl

end FxPulse.Rsi
