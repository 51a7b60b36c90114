import FxPulse.Config.Basic
import FxPulse.Proofs.Failure
import FxPulse.Proofs.State.Lookback

/-!
# `Proofs/Config/Load.lean` — what holds of a configuration that was accepted
-/

set_option autoImplicit false

namespace FxPulse

/-- The periods and windows of all oscillators. -/
def OscillatorSettings.periods (o : OscillatorSettings) : List Nat :=
  [o.rsiPeriod, o.stochasticK, o.stochasticD, o.zScoreWindow, o.rankWindow]

namespace Config

/-- Where both windows of a volatility regime are given, the short one is shorter. -/
theorem readVolatility_lt {raw : String} {short long : Nat}
    (h : readVolatility raw = .ok (some (short, long))) : short < long := by
  obtain ⟨windows, -, h⟩ := bind_eq_ok_iff.1 h
  split at h
  · cases h
  · split at h
    · rename_i order
      cases h
      exact order.2
    · cases h
  · cases h

/-- A gap is never negative. -/
theorem readGap_nonneg {raw : String} {gap : Int} (h : readGap raw = .ok gap) : 0 ≤ gap := by
  obtain ⟨minutes, -, h⟩ := bind_eq_ok_iff.1 h
  split at h
  · cases h
  · rename_i forward
    cases h
    exact Int.mul_nonneg (Int.not_lt.1 forward) (by decide)

/-- What was read on the way to an accepted configuration, group by group. -/
structure Reads (c : Config) : Prop where
  windows : ∃ raw, readWindows raw = .ok c.windows
  listed : c.windows.any (fun w => w.label == c.oscillators.window) = true
  triggers : ∃ raw read, Setting.pairs Setting.ranked Setting.whole "TRIGGER_GRID" raw = .ok read ∧
    c.triggers = read.map fun (minPips, minutes) => ⟨minPips, minutes⟩
  outcomes : ∃ raw read, Setting.pairs Setting.real Setting.whole "OUTCOME_GRID" raw = .ok read ∧
    c.outcomes = read.map fun (targetPips, minutes) => ⟨targetPips, minutes⟩
  burstGap : ∃ raw, readGap raw = .ok c.burstGap
  volatility : ∃ raw, readVolatility raw = .ok c.state.volatility
  pips : ∃ (entries : List String) (read : List (String × Float)), entries.mapM readPip = .ok read ∧
    c.pips = PipSizes.ofList read
  alpha : ∃ raw, readAlpha raw = .ok c.alpha
  bands : ∃ overbought oversold, readBands overbought oversold = .ok c.oscillators.bands
  periods : ∀ n ∈ c.oscillators.periods, ∃ key raw,
    Setting.onePositive Setting.wordCount key raw = .ok n

theorem load_reads {lookup : Lookup} {c : Config} (h : load lookup = .ok c) : c.Reads := by
  unfold load at h
  dsimp only at h
  obtain ⟨windows, windowsRead, h⟩ := bind_eq_ok_iff.1 h
  split at h
  · cases h
  · rename_i listed
    obtain ⟨triggers, triggersRead, h⟩ := bind_eq_ok_iff.1 h
    obtain ⟨outcomes, outcomesRead, h⟩ := bind_eq_ok_iff.1 h
    obtain ⟨gap, gapRead, h⟩ := bind_eq_ok_iff.1 h
    obtain ⟨_, -, h⟩ := bind_eq_ok_iff.1 h
    obtain ⟨volatility, volatilityRead, h⟩ := bind_eq_ok_iff.1 h
    obtain ⟨pips, pipsRead, h⟩ := bind_eq_ok_iff.1 h
    obtain ⟨alpha, alphaRead, h⟩ := bind_eq_ok_iff.1 h
    obtain ⟨bands, bandsRead, h⟩ := bind_eq_ok_iff.1 h
    obtain ⟨rsi, rsiRead, h⟩ := bind_eq_ok_iff.1 h
    obtain ⟨k, kRead, h⟩ := bind_eq_ok_iff.1 h
    obtain ⟨d, dRead, h⟩ := bind_eq_ok_iff.1 h
    obtain ⟨zScore, zScoreRead, h⟩ := bind_eq_ok_iff.1 h
    obtain ⟨rank, rankRead, h⟩ := bind_eq_ok_iff.1 h
    iterate 6 obtain ⟨_, -, h⟩ := bind_eq_ok_iff.1 h
    cases h
    refine ⟨⟨_, windowsRead⟩, by simpa using listed, ⟨_, _, triggersRead, rfl⟩,
      ⟨_, _, outcomesRead, rfl⟩, ⟨_, gapRead⟩, ⟨_, volatilityRead⟩, ⟨_, _, pipsRead, rfl⟩,
      ⟨_, alphaRead⟩, ⟨_, _, bandsRead⟩, ?_⟩
    simp only [OscillatorSettings.periods, List.forall_mem_cons]
    exact ⟨⟨_, _, rsiRead⟩, ⟨_, _, kRead⟩, ⟨_, _, dRead⟩, ⟨_, _, zScoreRead⟩, ⟨_, _, rankRead⟩, nofun⟩

/-- **An accepted configuration has a proper state**, one that is never asked for what it cannot
compute. -/
theorem load_proper {lookup : Lookup} {c : Config} (h : load lookup = .ok c) : c.state.Proper := by
  intro short long given
  obtain ⟨raw, read⟩ := (load_reads h).volatility
  rw [given] at read
  exact Nat.le_of_lt (readVolatility_lt read)

theorem load_burstGap_nonneg {lookup : Lookup} {c : Config} (h : load lookup = .ok c) :
    0 ≤ c.burstGap := by
  obtain ⟨raw, read⟩ := (load_reads h).burstGap
  exact readGap_nonneg read

end Config

end FxPulse
