import FxPulse.Proofs.Oscillator.Rsi
import FxPulse.Proofs.State.Lookback

/-!
# `Proofs/State/Known.lean` — the look-back is the history that is needed, no more and no less

That no state depends on closes further back than its look-back is in `Proofs/State/Lookback.lean`. That
the look-back is not too long is this:

> of finite closes, every part of the state is known exactly if there are as many as the look-back.

Volatility is known from its long window on, whatever the closes are. Relative strength counts finite
closes only, and over its stretch of closes it has to get warm: four periods of changes are enough for that
as long as a period is one change or more.
-/

set_option autoImplicit false

namespace FxPulse.StateSpec

open FxPulse.Number

theorem toString_ne_unknown {n : Nat} (digit : n < 10) : toString n ≠ unknown := by
  have digits : ∀ d : Fin 10, toString d.val ≠ unknown := by decide
  exact digits ⟨n, digit⟩

theorem regime_ne_unknown (shortRun longRun : Float) : regime shortRun longRun ≠ unknown := by
  unfold regime
  dsimp only
  split
  · decide
  · split
    · decide
    · split <;> decide

theorem length_tail {closes : Array Float} {n : Nat} (h : n ≤ closes.size) :
    (tail closes n).length = n := by
  rw [tail_eq_drop, List.length_drop, Array.length_toList]
  omega

theorem rsiValue_eq_unknown_iff {closes : Array Float} {period : Nat} (pos : 1 ≤ period)
    (finite : ∀ x ∈ closes.toList, x.isFinite = true) :
    rsiValue closes period = unknown ↔ closes.size < rsiCloses period := by
  unfold rsiValue
  dsimp only
  by_cases few : closes.size < rsiCloses period
  · rw [if_pos few]
    exact iff_of_true rfl few
  · -- All of the stretch are samples, and they are more than a period.
    have samples : (tail closes (rsiCloses period)).countP (·.isFinite) = rsiCloses period := by
      rw [List.countP_eq_length.2, length_tail (Nat.le_of_not_lt few)]
      rw [tail_eq_drop]
      exact fun x mem => finite x (List.mem_of_mem_drop mem)
    have warm : (Rsi.ofValues? (tail closes (rsiCloses period)) period).isSome = true := by
      rw [Rsi.isSome_ofValues?_iff, samples, rsiCloses, rsiPeriods]
      omega
    obtain ⟨rsi, found⟩ := Option.isSome_iff_exists.1 warm
    rw [if_neg few, found]
    refine iff_of_false (toString_ne_unknown ?_) few
    exact Nat.lt_succ_of_le (Nat.min_le_right _ _)

theorem volatilityValue_eq_unknown_iff {closes : Array Float} {short long : Nat} {value : String}
    (h : volatilityValue closes short long = .ok value) :
    value = unknown ↔ closes.size < long + 1 := by
  unfold volatilityValue at h
  by_cases few : closes.size < long + 1
  · rw [if_pos few] at h
    cases h
    exact iff_of_true rfl few
  · rw [if_neg few] at h
    split at h
    · cases h
    · cases h
      exact iff_of_false (regime_ne_unknown _ _) few

/-- The parts of a state are what is computed for each thing that is asked. -/
theorem parts_of_compute {s : StateSpec} {closes : Array Float} {key : StateKey}
    (h : s.compute closes = .ok key) {p : StatePart} :
    p ∈ key.parts ↔
      (∃ period, s.rsiPeriod = some period ∧ p = ⟨"rsi", rsiValue closes period⟩) ∨
      ∃ short long value, s.volatility = some (short, long) ∧
        volatilityValue closes short long = .ok value ∧ p = ⟨"vol", value⟩ := by
  unfold compute at h
  cases hr : s.rsiPeriod with
  | none =>
    cases hv : s.volatility with
    | none =>
      simp only [hr, hv] at h
      cases h
      simp [StateKey.empty]
    | some windows =>
      obtain ⟨short, long⟩ := windows
      simp only [hr, hv] at h
      obtain ⟨value, computed, h⟩ := bind_eq_ok_iff.1 h
      cases h
      simp [StateKey.empty, StateKey.push, computed]
  | some period =>
    cases hv : s.volatility with
    | none =>
      simp only [hr, hv] at h
      cases h
      simp [StateKey.empty, StateKey.push]
    | some windows =>
      obtain ⟨short, long⟩ := windows
      simp only [hr, hv] at h
      obtain ⟨value, computed, h⟩ := bind_eq_ok_iff.1 h
      cases h
      simp [StateKey.empty, StateKey.push, computed]

theorem lookback_le_iff (s : StateSpec) (n : Nat) :
    s.lookback ≤ n ↔ (∀ period, s.rsiPeriod = some period → rsiCloses period ≤ n) ∧
      ∀ short long, s.volatility = some (short, long) → long + 1 ≤ n := by
  rw [lookback, Nat.max_le]
  refine and_congr ?_ ?_
  · cases s.rsiPeriod <;> simp
  · rcases s.volatility with _ | ⟨short, long⟩ <;> simp

section Known

variable {s : StateSpec} (proper : s.Proper)
  (positive : ∀ period, s.rsiPeriod = some period → 1 ≤ period)
include proper positive

/-- Everything is known where neither relative strength nor volatility has too few closes. -/
theorem known_iff {closes : Array Float} (finite : ∀ x ∈ closes.toList, x.isFinite = true)
    {key : StateKey} (h : s.compute closes = .ok key) :
    (∀ p ∈ key.parts, p.value ≠ unknown) ↔ s.lookback ≤ closes.size := by
  rw [lookback_le_iff]
  constructor
  · intro known
    constructor
    · intro period asked
      have part := known _ ((parts_of_compute h).2 (.inl ⟨period, asked, rfl⟩))
      rwa [ne_eq, rsiValue_eq_unknown_iff (positive period asked) finite, Nat.not_lt] at part
    · intro short long asked
      obtain ⟨value, computed⟩ := exists_volatilityValue closes (proper short long asked)
      have part := known _ ((parts_of_compute h).2 (.inr ⟨short, long, value, asked, computed, rfl⟩))
      rwa [ne_eq, volatilityValue_eq_unknown_iff computed, Nat.not_lt] at part
  · rintro ⟨rsi, volatility⟩ p mem
    rcases (parts_of_compute h).1 mem with
      ⟨period, asked, rfl⟩ | ⟨short, long, value, asked, computed, rfl⟩
    · rw [ne_eq, rsiValue_eq_unknown_iff (positive period asked) finite, Nat.not_lt]
      exact rsi period asked
    · rw [ne_eq, volatilityValue_eq_unknown_iff computed, Nat.not_lt]
      exact volatility short long asked

end Known

end FxPulse.StateSpec
