import FxPulse.Checked.States
import FxPulse.Proofs.Checked.Basic
import FxPulse.Proofs.State.Known

/-!
# `Proofs/Checked/States.lean` — states of the market, and the names of pairs

That the short run of a volatility regime is no longer than the long one is asked by nobody, so a state
has to be proper; and that the closes it looks back on can be counted is asked by nobody either, so it
has to fit in a word. Then nothing breaks off (`compute_completes`), and

> what is computed as the look-back is exactly the history that the state uses (`lookback_exact`).

The place of a letter in the name of a pair is never wrong.
-/

set_option autoImplicit false

namespace FxPulse

open FxPulse.Number

/-- A word holds the number of closes that a state looks back on. -/
def StateSpec.Fits (s : StateSpec) : Prop := fitsCount s.lookback = true

instance StateSpec.decidableFits (s : StateSpec) : Decidable s.Fits := inferInstanceAs (Decidable (_ = true))

namespace Checked

/-! ## Look-backs -/

theorem fitsCount_mono {n m : Nat} (le : n ≤ m) (fits : fitsCount m = true) : fitsCount n = true :=
  fitsCount_iff.2 (Nat.le_trans le (fitsCount_iff.1 fits))

/-- Both parts of a look-back are words, so their maximum is. -/
theorem fits_of_lookback {b : Build} {s : StateSpec} {n : Nat} (computed : lookback b s = .ok n) :
    fitsCount n = true := by
  have part : ∀ {x : Checked Nat} {m : Nat}, x = .ok m → (x = .ok 0 ∨ ∃ k, x = count b k) →
      m ≤ greatestWord := by
    rintro x m found (rfl | ⟨k, rfl⟩)
    · cases found
      exact Nat.zero_le _
    · exact fitsCount_iff.1 (fits_of_count found)
  obtain ⟨rsi, first, rest⟩ := bind_eq_ok_iff.1 computed
  obtain ⟨volatility, second, rest⟩ := bind_eq_ok_iff.1 rest
  cases rest
  refine fitsCount_iff.2 (Nat.max_le.2 ⟨part first ?_, part second ?_⟩)
  · unfold rsiLookback
    cases s.rsiPeriod with
    | none => exact .inl rfl
    | some period => exact .inr ⟨_, rfl⟩
  · unfold volatilityLookback
    rcases s.volatility with _ | ⟨short, long⟩
    · exact .inl rfl
    · exact .inr ⟨_, rfl⟩

theorem lookback_ends {b : Build} (s : StateSpec) : Ends b (lookback b s) := by
  have rsi : Ends b (rsiLookback b s) := by
    unfold rsiLookback
    cases s.rsiPeriod with
    | none => exact .ok _
    | some period => exact .count _
  have volatility : Ends b (volatilityLookback b s) := by
    unfold volatilityLookback
    cases s.volatility with
    | none => exact .ok _
    | some windows => exact .count _
  exact rsi.bind fun _ _ => volatility.bind fun _ _ => .ok _

section Lookback

variable {s : StateSpec} (fits : s.Fits) (b : Build)
include fits

theorem rsiLookback_eq : rsiLookback b s = .ok ((s.rsiPeriod.map StateSpec.rsiCloses).getD 0) := by
  unfold rsiLookback
  cases asked : s.rsiPeriod with
  | none => rfl
  | some period => exact count_eq (fitsCount_mono (StateSpec.rsiCloses_le_lookback asked) fits) b

theorem volatilityLookback_eq :
    volatilityLookback b s = .ok ((s.volatility.map fun windows => windows.2 + 1).getD 0) := by
  unfold volatilityLookback
  cases asked : s.volatility with
  | none => rfl
  | some windows => exact count_eq (fitsCount_mono (StateSpec.long_lt_lookback asked) fits) b

theorem lookback_eq : lookback b s = .ok s.lookback := by
  rw [lookback, rsiLookback_eq fits, ok_bind, volatilityLookback_eq fits, ok_bind, pure_eq_ok,
    StateSpec.lookback]
  cases s.rsiPeriod <;> cases s.volatility <;> rfl

end Lookback

/-! ## Closes -/

theorem rsiValue_eq {period : Nat} (fits : fitsCount (StateSpec.rsiCloses period) = true) (b : Build)
    (closes : Array Float) : rsiValue b closes period = .ok (StateSpec.rsiValue closes period) := by
  unfold rsiValue StateSpec.rsiValue
  rw [count_eq fits, ok_bind]
  dsimp only
  by_cases few : closes.size < StateSpec.rsiCloses period
  · rw [if_pos few, if_pos few]
    rfl
  · rw [if_neg few, if_neg few, difference_eq (Nat.le_of_not_lt few), ok_bind,
      stretch_eq (Nat.sub_le _ _) (Nat.le_refl _), ok_bind, ← StateSpec.tail]
    cases Rsi.ofValues? (StateSpec.tail closes (StateSpec.rsiCloses period)) period <;> rfl

theorem steps_eq (values : Array Float) : steps values = .ok (StateSpec.steps values.toList) := by
  have step : ∀ i ∈ List.range (values.size - 1), (do
      let neighbours ← stretch values i (i + 2)
      return (← element neighbours 1) - (← element neighbours 0) : Checked Float)
        = .ok (values.getD (i + 1) 0.0 - values.getD i 0.0) := by
    intro i mem
    have inside : i + 1 < values.size := by
      rw [List.mem_range] at mem
      omega
    have two : (values.extract i (i + 2)).size = 2 := by
      rw [Array.size_extract]
      omega
    rw [stretch_eq (Nat.le_add_right i 2) inside, ok_bind, element_eq (by omega), ok_bind,
      element_eq (by omega), ok_bind, pure_eq_ok, Array.getElem_extract, Array.getElem_extract,
      Array.getD_eq_getD_getElem?, Array.getElem?_eq_getElem inside, Array.getD_eq_getD_getElem?,
      Array.getElem?_eq_getElem (by omega), Option.getD_some, Option.getD_some]
    rfl
  rw [steps, mapM_eq_ok step, StateSpec.steps]
  congr 1
  refine List.ext_getElem (by simp) fun i hi _ => ?_
  rw [List.length_map, List.length_range] at hi
  simp [Array.getD_eq_getD_getElem?, show i + 1 < values.size by omega,
    show i < values.size by omega]

/-- **The short run is cut off the long one**, as long as it is no longer. -/
theorem volatilityValue_completes {short long : Nat} (fits : fitsCount (long + 1) = true)
    (ordered : short ≤ long) (b : Build) (closes : Array Float) :
    Completes (volatilityValue b closes short long)
      (StateSpec.volatilityValue closes short long) := by
  unfold volatilityValue StateSpec.volatilityValue
  rw [count_eq fits, ok_bind]
  by_cases few : closes.size < long + 1
  · rw [if_pos few, if_pos few]
    exact .of_eq rfl rfl
  · rw [if_neg few, if_neg few, if_neg (Nat.not_lt.2 ordered),
      difference_eq (Nat.le_of_not_lt few), ok_bind, stretch_eq (Nat.sub_le _ _) (Nat.le_refl _),
      ok_bind, steps_eq, ok_bind, ← StateSpec.tail]
    have length : (StateSpec.steps (StateSpec.tail closes (long + 1))).length = long := by
      simp only [StateSpec.steps, StateSpec.tail, List.length_map, List.length_zip, List.length_drop,
        Array.length_toList, Array.size_extract]
      omega
    revert length
    generalize StateSpec.steps (StateSpec.tail closes (long + 1)) = changes
    intro length
    rw [← List.size_toArray] at length
    dsimp only
    rw [difference_eq (length.symm ▸ ordered), ok_bind, stretch_eq (Nat.sub_le _ _) (Nat.le_refl _),
      ok_bind, toList_extract_size]
    exact .of_eq rfl rfl

theorem compute_completes {s : StateSpec} (proper : s.Proper) (fits : s.Fits) (b : Build)
    (closes : Array Float) : Completes (compute b s closes) (s.compute closes) := by
  have both : ∀ (key : StateKey) (short long : Nat), s.volatility = some (short, long) →
      Completes (do return key.push "vol" (← volatilityValue b closes short long))
        (do return key.push "vol" (← StateSpec.volatilityValue closes short long)) := by
    intro key short long asked
    have counted := fitsCount_mono (StateSpec.long_lt_lookback asked) fits
    exact (volatilityValue_completes counted (proper short long asked) b closes).bind
      fun _ _ => .of_eq rfl rfl
  unfold compute rsiKey StateSpec.compute
  cases asked : s.rsiPeriod with
  | none =>
    cases hv : s.volatility with
    | none => exact .of_eq rfl rfl
    | some windows => exact both _ _ _ hv
  | some period =>
    dsimp only
    rw [rsiValue_eq (fitsCount_mono (StateSpec.rsiCloses_le_lookback asked) fits)]
    cases hv : s.volatility with
    | none => exact .of_eq rfl rfl
    | some windows => exact both _ _ _ hv

/-- **The look-back is exactly the history that a state uses**, if there is a word for it. For a state
whose period is positive and whose short window is no longer than its long one: the look-back is computed
as it should be if and only if a word holds it. Then there is a state of whatever closes, and it is that
of the last closes alone, as many as the look-back, or of all where there are fewer. Where all closes are
finite, no part of it is `na` if there are as many closes as the look-back, and some part is if there are
fewer. -/
theorem lookback_exact {s : StateSpec} (proper : s.Proper)
    (positive : ∀ period, s.rsiPeriod = some period → 1 ≤ period) (b : Build) (closes : Array Float) :
    (lookback b s = .ok s.lookback ↔ s.Fits) ∧
    (s.Fits → ∃ key, compute b s closes = .ok key ∧
      compute b s (closes.extract (closes.size - s.lookback) closes.size) = .ok key ∧
      ((∀ x ∈ closes.toList, x.isFinite = true) →
        ((∀ p ∈ key.parts, p.value ≠ "na") ↔ s.lookback ≤ closes.size))) := by
  refine ⟨⟨fits_of_lookback, fun fits => lookback_eq fits b⟩, fun fits => ?_⟩
  obtain ⟨key, checked, computed⟩ := compute_completes proper fits b closes
  have same := StateSpec.compute_recent s closes
  rw [computed] at same
  exact ⟨key, checked, (compute_completes proper fits b _).eq_ok same,
    fun finite => StateSpec.known_iff proper positive finite computed⟩

/-- Closes that went far and then little. -/
def swings : Array Float := #[2.0, 1.0, 2.0, 1.0, 1.5, 1.25, 1.5, 1.25, 1.5, 1.75]

/-- Of the ten swings a state that looks back on nine takes the last nine, and knows all it asks. Of the
first eight it does not. -/
theorem lookback_exact_nine :
    let s : StateSpec := ⟨some 2, some (2, 4)⟩
    s.Proper ∧ (∀ period, s.rsiPeriod = some period → 1 ≤ period) ∧ s.Fits ∧
    lookback .checking s = .ok 9 ∧
    (∃ key, compute .checking s swings = .ok key ∧
      compute .checking s (swings.extract 1 10) = .ok key ∧ ∀ p ∈ key.parts, p.value ≠ "na") ∧
    ∃ key, compute .checking s (swings.extract 0 8) = .ok key ∧
      ¬ ∀ p ∈ key.parts, p.value ≠ "na" := by
  intro s
  have proper : s.Proper := by
    intro short long asked
    cases asked
    decide
  have positive : ∀ period, s.rsiPeriod = some period → 1 ≤ period := by
    intro period asked
    cases asked
    decide
  have fits : s.Fits := by decide
  have nine : s.lookback = 9 := by decide
  obtain ⟨looked, found⟩ := lookback_exact proper positive .checking swings
  obtain ⟨-, few⟩ := lookback_exact proper positive .checking (swings.extract 0 8)
  refine ⟨proper, positive, fits, ?_, ?_, ?_⟩
  · rw [looked.2 fits, nine]
  · obtain ⟨key, computed, last, known⟩ := found fits
    have finite : ∀ x ∈ swings.toList, x.isFinite = true := by decide +kernel
    refine ⟨key, computed, ?_, (known finite).2 ?_⟩
    · rwa [nine] at last
    · rw [nine]
      decide
  · obtain ⟨key, computed, -, known⟩ := few fits
    have finite : ∀ x ∈ (swings.extract 0 8).toList, x.isFinite = true := by decide +kernel
    refine ⟨key, computed, mt (known finite).1 ?_⟩
    rw [nine]
    decide

/-! ## Keys -/

theorem levels_eq (k : StateKey) : levels k = .ok k.levels := by
  refine mapM_eq_ok fun n mem => ?_
  rw [List.mem_reverse, List.mem_range, StateKey.size] at mem
  rw [stretch_eq (Nat.zero_le n) (by simpa using Nat.le_of_lt_succ mem), ok_bind]
  simp [StateKey.take]

/-! ## Pairs -/

theorem pairOf_eq (instrument : String) : pairOf instrument = .ok (Pair.ofInstrument? instrument) := by
  unfold pairOf Pair.ofInstrument?
  generalize (instrument.toList.filter fun c => !Pair.isSeparator c).take 6 = letters
  dsimp only
  split
  · rename_i named
    rw [stretch_eq (Nat.zero_le 3) (by rw [named.1]; decide), ok_bind,
      stretch_eq (by rw [named.1]; decide) (Nat.le_refl _), ok_bind, toList_extract_size,
      if_pos (by simpa using named)]
    simp
  · rename_i unnamed
    rw [if_neg (by simpa using unnamed)]
    rfl

theorem pip_eq (sizes : PipSizes) (symbol : String) : pip sizes symbol = .ok (sizes.pip symbol) := by
  rw [pip, PipSizes.pip, pairOf_eq]
  cases sizes.given[symbol]? with
  | some given => rfl
  | none => cases Pair.ofInstrument? symbol <;> rfl

end Checked

end FxPulse
