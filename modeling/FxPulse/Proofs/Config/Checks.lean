import FxPulse.Proofs.Config.Load
import FxPulse.Proofs.Number.Order

/-!
# `Proofs/Config/Checks.lean` — what the checks of a configuration let through

`Valid` says what a configuration is meant to be: distances, pips and the smoothing are positive, the
bands stand in order, periods and lengths of time are there. `Guarded` says what the checks see to. The
two part where a check refuses what is too small instead of asking for what is great enough, since the
value that is no number is not too small, and at the z-score's band, which nothing checks.

> A guarded configuration is valid exactly when none of the floats that are refused for being too small is
> the value that is no number and the z-score's band is not negative (`Guarded.valid_iff`).
-/

set_option autoImplicit false

namespace FxPulse

open FxPulse.Number

/-! ## Single settings -/

namespace Setting

variable {α β : Type} {first : Kind α} {second : Kind β} {key raw : String}

theorem positive_of_onePositive {value : α} (h : onePositive first key raw = .ok value) :
    first.positive value = true := by
  obtain ⟨read, -, h⟩ := bind_eq_ok_iff.1 h
  split at h
  · rename_i positive
    cases h
    exact positive
  · cases h

theorem positive_of_pair {entry : String} {a : α} {b : β}
    (h : pair first second key entry = .ok (a, b)) :
    first.positive a = true ∧ second.positive b = true := by
  unfold pair at h
  split at h
  · cases h
  · obtain ⟨x, -, h⟩ := bind_eq_ok_iff.1 h
    obtain ⟨y, -, h⟩ := bind_eq_ok_iff.1 h
    split at h
    · rename_i positive
      cases h
      exact Bool.and_eq_true_iff.1 positive
    · cases h

theorem positive_of_pairs {entries : List (α × β)} (h : pairs first second key raw = .ok entries) :
    ∀ entry ∈ entries, first.positive entry.1 = true ∧ second.positive entry.2 = true :=
  forall_mem_of_mapM (fun _ _ => positive_of_pair) h

end Setting

namespace Window

theorem unit_pos {letter : Char} {unit : Int} (h : unit? letter = some unit) : 0 < unit := by
  unfold unit? at h
  split at h <;> cases h <;> decide

theorem length_pos {text : String} {w : Window} (h : ofLabel text = .ok (some w)) : 0 < w.length := by
  unfold ofLabel at h
  dsimp only at h
  split at h
  · cases h
  · split at h
    · cases h
    · split at h
      · cases h
      · obtain ⟨count, counted, h⟩ := Option.bind_eq_some_iff.1 (Except.ok.inj h)
        obtain ⟨unit, named, h⟩ := Option.bind_eq_some_iff.1 h
        cases h
        have several : 0 < count := of_decide_eq_true (Option.filter_eq_some_iff.1 counted).2
        exact Int.mul_pos several (unit_pos named)

end Window

/-- Every size in the map was in the list. -/
theorem PipSizes.mem_of_getElem?_ofList {sizes : List (String × Float)} {symbol : String} {pip : Float}
    (h : (ofList sizes).given[symbol]? = some pip) : (symbol, pip) ∈ sizes := by
  rw [ofList, getElem?_foldl_insert Prod.fst Prod.snd] at h
  rw [Std.ExtTreeMap.getElem?_empty, Option.or_none] at h
  obtain ⟨entry, found, rfl⟩ := Option.map_eq_some_iff.1 h
  obtain rfl : entry.1 = symbol := by simpa using List.find?_some found
  exact List.mem_reverse.1 (List.mem_of_find?_eq_some found)

namespace Config

theorem readWindow_pos {label : String} {w : Window} (h : readWindow label = .ok w) : 0 < w.length := by
  unfold readWindow at h
  cases read : Window.ofLabel label with
  | error fault =>
    rw [read] at h
    cases h
  | ok found =>
    rw [read] at h
    cases found with
    | none => cases h
    | some window =>
      obtain rfl := Except.ok.inj h
      exact Window.length_pos read

theorem readWindows_pos {raw : String} {windows : List Window} (h : readWindows raw = .ok windows) :
    ∀ w ∈ windows, 0 < w.length := by
  obtain ⟨read, walked, h⟩ := bind_eq_ok_iff.1 h
  split at h
  · cases h
  · cases h
    exact forall_mem_of_mapM (fun _ _ => readWindow_pos) walked

theorem readPip_not_le {entry symbol : String} {pip : Float} (h : readPip entry = .ok (symbol, pip)) :
    ¬ pip ≤ 0.0 := by
  unfold readPip at h
  split at h
  · cases h
  · obtain ⟨read, -, h⟩ := bind_eq_ok_iff.1 h
    split at h
    · cases h
    · rename_i kept
      cases h
      exact kept

theorem readAlpha_pos {raw : String} {alpha : Float} (h : readAlpha raw = .ok alpha) : 0.0 < alpha := by
  obtain ⟨read, -, h⟩ := bind_eq_ok_iff.1 h
  split at h
  · rename_i positive
    cases h
    exact positive
  · cases h

theorem readBands_not_le {overbought oversold : String} {bands : Bands}
    (h : readBands overbought oversold = .ok bands) : ¬ bands.overbought ≤ bands.oversold := by
  obtain ⟨high, -, h⟩ := bind_eq_ok_iff.1 h
  obtain ⟨low, -, h⟩ := bind_eq_ok_iff.1 h
  split at h
  · cases h
  · rename_i kept
    cases h
    exact kept

theorem two_le_of_readVolatility {raw : String} {short long : Nat}
    (h : readVolatility raw = .ok (some (short, long))) : 2 ≤ short := by
  obtain ⟨windows, -, h⟩ := bind_eq_ok_iff.1 h
  split at h
  · cases h
  · split at h
    · rename_i order
      cases h
      exact order.1
    · cases h
  · cases h

/-! ## The configuration -/

/-- The floats of a configuration that are lengths: distances in pips, and the sizes of pips. -/
inductive Measures (c : Config) : Float → Prop where
  | trigger {t : Trigger} (listed : t ∈ c.triggers) : Measures c t.minPips.toFloat
  | outcome {o : Outcome} (listed : o ∈ c.outcomes) : Measures c o.targetPips
  | pip {symbol : String} {pip : Float} (given : c.pips.given[symbol]? = some pip) : Measures c pip

/-- The settings that are whole numbers and names are as they are meant to be. -/
structure Whole (c : Config) : Prop where
  triggers : ∀ t ∈ c.triggers, 1 ≤ t.minutes
  outcomes : ∀ o ∈ c.outcomes, 1 ≤ o.minutes
  periods : ∀ n ∈ c.oscillators.periods, 1 ≤ n
  volatility : ∀ short long, c.state.volatility = some (short, long) → 2 ≤ short ∧ short < long
  burstGap : 0 ≤ c.burstGap
  windows : ∀ w ∈ c.windows, 0 < w.length
  listed : ∃ w ∈ c.windows, w.label = c.oscillators.window

/-- A configuration as it is meant to be. -/
structure Valid (c : Config) : Prop where
  whole : c.Whole
  measures : ∀ x, c.Measures x → 0.0 < x
  alpha : 0.0 < c.alpha
  bands : c.oscillators.bands.oversold < c.oscillators.bands.overbought
  zScoreBand : -c.oscillators.zScoreBand ≤ c.oscillators.zScoreBand

/-- What the checks see to. Only the smoothing is asked to be positive; the other floats are asked not to
be too small. -/
structure Guarded (c : Config) : Prop where
  whole : c.Whole
  measures : ∀ x, c.Measures x → ¬ x ≤ 0.0
  alpha : 0.0 < c.alpha
  bands : ¬ c.oscillators.bands.overbought ≤ c.oscillators.bands.oversold

/-- The floats that are asked not to be too small are numbers. -/
structure Numeric (c : Config) : Prop where
  measures : ∀ x, c.Measures x → x.isNaN = false
  overbought : c.oscillators.bands.overbought.isNaN = false
  oversold : c.oscillators.bands.oversold.isNaN = false

/-- Whether the floats are numbers is decided list by list. -/
theorem numeric_iff {c : Config} :
    c.Numeric ↔ (∀ t ∈ c.triggers, t.minPips.toFloat.isNaN = false) ∧
      (∀ o ∈ c.outcomes, o.targetPips.isNaN = false) ∧
      (∀ entry ∈ c.pips.given.toList, entry.2.isNaN = false) ∧
      c.oscillators.bands.overbought.isNaN = false ∧ c.oscillators.bands.oversold.isNaN = false := by
  constructor
  · intro h
    refine ⟨fun t ht => h.measures _ (.trigger ht), fun o ho => h.measures _ (.outcome ho), ?_,
      h.overbought, h.oversold⟩
    intro entry he
    exact h.measures _ (.pip (Std.ExtTreeMap.mem_toList_iff_getElem?_eq_some.1 he))
  · rintro ⟨triggers, outcomes, pips, overbought, oversold⟩
    refine ⟨?_, overbought, oversold⟩
    intro x measured
    cases measured with
    | trigger listed => exact triggers _ listed
    | outcome listed => exact outcomes _ listed
    | @pip symbol _ given => exact pips (symbol, x) (Std.ExtTreeMap.mem_toList_iff_getElem?_eq_some.2 given)

instance (c : Config) : Decidable c.Numeric := decidable_of_iff _ numeric_iff.symm

theorem Reads.whole {c : Config} (h : c.Reads) : c.Whole where
  triggers := by
    obtain ⟨raw, read, triggersRead, triggers⟩ := h.triggers
    rw [triggers, List.forall_mem_map]
    intro entry he
    exact of_decide_eq_true (Setting.positive_of_pairs triggersRead entry he).2
  outcomes := by
    obtain ⟨raw, read, outcomesRead, outcomes⟩ := h.outcomes
    rw [outcomes, List.forall_mem_map]
    intro entry he
    exact of_decide_eq_true (Setting.positive_of_pairs outcomesRead entry he).2
  periods := by
    intro n hn
    obtain ⟨key, raw, read⟩ := h.periods n hn
    exact of_decide_eq_true (Setting.positive_of_onePositive read)
  volatility := by
    intro short long given
    obtain ⟨raw, read⟩ := h.volatility
    rw [given] at read
    exact ⟨two_le_of_readVolatility read, readVolatility_lt read⟩
  burstGap := by
    obtain ⟨raw, read⟩ := h.burstGap
    exact readGap_nonneg read
  windows := by
    obtain ⟨raw, read⟩ := h.windows
    exact readWindows_pos read
  listed := by simpa using h.listed

theorem Reads.not_le_of_measures {c : Config} (h : c.Reads) {x : Float} (measured : c.Measures x) :
    ¬ x ≤ 0.0 := by
  cases measured with
  | trigger listed =>
    obtain ⟨raw, read, triggersRead, triggers⟩ := h.triggers
    rw [triggers] at listed
    obtain ⟨entry, he, rfl⟩ := List.mem_map.1 listed
    simpa [Setting.ranked] using (Setting.positive_of_pairs triggersRead entry he).1
  | outcome listed =>
    obtain ⟨raw, read, outcomesRead, outcomes⟩ := h.outcomes
    rw [outcomes] at listed
    obtain ⟨entry, he, rfl⟩ := List.mem_map.1 listed
    simpa [Setting.real] using (Setting.positive_of_pairs outcomesRead entry he).1
  | pip given =>
    obtain ⟨entries, read, walked, pips⟩ := h.pips
    rw [pips] at given
    exact forall_mem_of_mapM (p := fun entry => ¬ entry.2 ≤ 0.0) (fun _ _ => readPip_not_le) walked _
      (PipSizes.mem_of_getElem?_ofList given)

theorem Reads.guarded {c : Config} (h : c.Reads) : c.Guarded where
  whole := h.whole
  measures := fun _ => h.not_le_of_measures
  alpha := by
    obtain ⟨raw, read⟩ := h.alpha
    exact readAlpha_pos read
  bands := by
    obtain ⟨overbought, oversold, read⟩ := h.bands
    exact readBands_not_le read

/-- What is not too small, and a number, is great enough; and what is great enough is a number. -/
theorem Guarded.valid_iff {c : Config} (h : c.Guarded) :
    c.Valid ↔ c.Numeric ∧ 0.0 ≤ c.oscillators.zScoreBand := by
  constructor
  · intro valid
    refine ⟨⟨?_, ?_, ?_⟩, neg_le_self_iff.1 valid.zScoreBand⟩
    · intro x measured
      exact (isNaN_of_lt (valid.measures x measured)).2
    · exact (isNaN_of_lt valid.bands).2
    · exact (isNaN_of_lt valid.bands).1
  · rintro ⟨numeric, forward⟩
    refine ⟨h.whole, ?_, h.alpha, ?_, neg_le_self_iff.2 forward⟩
    · intro x measured
      refine (not_le_iff.1 (h.measures x measured)).resolve_right ?_
      rintro (undefined | undefined)
      · rw [numeric.measures x measured] at undefined
        cases undefined
      · cases undefined
    · refine (not_le_iff.1 h.bands).resolve_right ?_
      rw [numeric.overbought, numeric.oversold]
      simp

end Config

end FxPulse
