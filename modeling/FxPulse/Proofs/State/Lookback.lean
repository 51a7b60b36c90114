import FxPulse.Proofs.Failure
import FxPulse.Proofs.Lists
import FxPulse.State.Spec

/-!
# `Proofs/State/Lookback.lean` — the state sees a bounded stretch of closes

A state asks two things of the closes, each of its own last few, and `StateSpec.lookback` is the longer
of the two stretches. So

> the state of all closes is the state of the last `lookback` of them.

That is what lets a scan hand over a stretch of its bars, and live matching no more minutes than that.
The second fact here is that the state always has an answer, unless its short window is longer than its
long one.
-/

set_option autoImplicit false

namespace FxPulse.StateSpec

/-- The short window of a volatility regime, if there is one, is no longer than the long one. -/
def Proper (s : StateSpec) : Prop :=
  ∀ short long, s.volatility = some (short, long) → short ≤ long

/-- The last `n` closes, or all of them when there are fewer. -/
def recent (closes : Array Float) (n : Nat) : Array Float :=
  closes.extract (closes.size - n) closes.size

theorem size_recent (closes : Array Float) (n : Nat) :
    (recent closes n).size = min n closes.size := by
  simp only [recent, Array.size_extract]
  omega

theorem tail_eq_drop (closes : Array Float) (n : Nat) :
    tail closes n = closes.toList.drop (closes.size - n) :=
  toList_extract_size closes _

/-- The last `n` of the last `m` closes are the last `n`. -/
theorem tail_recent {n m : Nat} (h : n ≤ m) (closes : Array Float) :
    tail (recent closes m) n = tail closes n := by
  have all : (recent closes m).toList = closes.toList.drop (closes.size - m) := tail_eq_drop closes m
  rw [tail_eq_drop, tail_eq_drop, all, List.drop_drop, size_recent]
  -- With fewer than `n` closes both sides keep all of them.
  congr 1
  omega

theorem rsiValue_recent {period m : Nat} (h : rsiCloses period ≤ m) (closes : Array Float) :
    rsiValue (recent closes m) period = rsiValue closes period := by
  simp only [rsiValue, tail_recent h, size_recent]
  by_cases few : closes.size < rsiCloses period
  · rw [if_pos few, if_pos (by omega)]
  · rw [if_neg few, if_neg (by omega)]

theorem volatilityValue_recent {short long m : Nat} (h : long + 1 ≤ m) (closes : Array Float) :
    volatilityValue (recent closes m) short long = volatilityValue closes short long := by
  simp only [volatilityValue, tail_recent h, size_recent]
  by_cases few : closes.size < long + 1
  · rw [if_pos few, if_pos (by omega)]
  · rw [if_neg few, if_neg (by omega)]

/-- What each part of a state looks back on is part of the look-back. -/
theorem rsiCloses_le_lookback {s : StateSpec} {period : Nat} (h : s.rsiPeriod = some period) :
    rsiCloses period ≤ s.lookback := by
  simp only [lookback, h]
  exact Nat.le_max_left _ _

theorem long_lt_lookback {s : StateSpec} {short long : Nat} (h : s.volatility = some (short, long)) :
    long + 1 ≤ s.lookback := by
  simp only [lookback, h]
  exact Nat.le_max_right _ _

/-- **The look-back is enough**: no state depends on a close further back. -/
theorem compute_recent (s : StateSpec) (closes : Array Float) :
    s.compute (recent closes s.lookback) = s.compute closes := by
  unfold compute
  have rsi : ∀ period, s.rsiPeriod = some period →
      rsiValue (recent closes s.lookback) period = rsiValue closes period :=
    fun period h => rsiValue_recent (rsiCloses_le_lookback h) closes
  have volatility : ∀ short long, s.volatility = some (short, long) →
      volatilityValue (recent closes s.lookback) short long = volatilityValue closes short long :=
    fun short long h => volatilityValue_recent (long_lt_lookback h) closes
  cases hr : s.rsiPeriod with
  | none =>
    cases hv : s.volatility with
    | none => rfl
    | some windows =>
      obtain ⟨short, long⟩ := windows
      simp only [volatility short long hv]
  | some period =>
    cases hv : s.volatility with
    | none => simp only [rsi period hr]
    | some windows =>
      obtain ⟨short, long⟩ := windows
      simp only [rsi period hr, volatility short long hv]

theorem exists_volatilityValue (closes : Array Float) {short long : Nat} (ordered : short ≤ long) :
    ∃ value, volatilityValue closes short long = .ok value := by
  unfold volatilityValue
  by_cases few : closes.size < long + 1
  · exact ⟨_, if_pos few⟩
  · exact ⟨_, by rw [if_neg few, if_neg (Nat.not_lt.2 ordered)]⟩

/-- A proper state has an answer to any closes. -/
theorem Proper.exists_compute {s : StateSpec} (proper : s.Proper) (closes : Array Float) :
    ∃ key, s.compute closes = .ok key := by
  unfold compute
  cases hv : s.volatility with
  | none => exact ⟨_, rfl⟩
  | some windows =>
    obtain ⟨short, long⟩ := windows
    obtain ⟨value, hvalue⟩ := exists_volatilityValue closes (proper short long hv)
    dsimp only
    rw [hvalue]
    exact ⟨_, rfl⟩

/-- The number of things that a state says. -/
def depth (s : StateSpec) : Nat := s.rsiPeriod.toList.length + s.volatility.toList.length

theorem size_of_compute {s : StateSpec} {closes : Array Float} {key : StateKey}
    (h : s.compute closes = .ok key) : key.size = s.depth := by
  unfold compute at h
  cases hr : s.rsiPeriod with
  | none =>
    cases hv : s.volatility with
    | none =>
      simp only [hr, hv] at h
      cases h
      simp [depth, hr, hv, StateKey.size, StateKey.empty]
    | some windows =>
      simp only [hr, hv] at h
      obtain ⟨value, -, h⟩ := bind_eq_ok_iff.1 h
      cases h
      simp [depth, hr, hv, StateKey.size, StateKey.push, StateKey.empty]
  | some period =>
    cases hv : s.volatility with
    | none =>
      simp only [hr, hv] at h
      cases h
      simp [depth, hr, hv, StateKey.size, StateKey.push, StateKey.empty]
    | some windows =>
      simp only [hr, hv] at h
      obtain ⟨value, -, h⟩ := bind_eq_ok_iff.1 h
      cases h
      simp [depth, hr, hv, StateKey.size, StateKey.push, StateKey.empty]

end FxPulse.StateSpec
