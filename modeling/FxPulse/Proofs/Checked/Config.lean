import FxPulse.Checked.Config
import FxPulse.Proofs.Checked.States
import FxPulse.Proofs.Config.Checks

/-!
# `Proofs/Checked/Config.lean` — what an accepted configuration is, in words

Reading settings in words accepts what reading them with numbers of any size accepts, up to lengths of time
that do not fit; and the configuration is the same up to those (`load_eq_ok_iff`).

A length that does not fit is not refused. In a program that goes on it comes out as another one, which may
be negative though its minutes were asked to be positive.

> A configuration is as it is meant to be exactly when the floats that are refused for being too small are
> numbers, the z-score's band is not negative, and no length of time has run out of its word into a negative
> one (`load_valid_exactly`).
-/

set_option autoImplicit false

namespace FxPulse

open FxPulse.Number

/-- Words hold the lengths of time. -/
structure Config.LengthsFit (c : Config) : Prop where
  windows : ∀ w ∈ c.windows, fitsSigned w.length = true
  retentionSlack : fitsSigned c.retentionSlack = true
  burstGap : fitsSigned c.burstGap = true

instance (c : Config) : Decidable c.LengthsFit :=
  decidable_of_iff ((∀ w ∈ c.windows, fitsSigned w.length = true) ∧
    fitsSigned c.retentionSlack = true ∧ fitsSigned c.burstGap = true)
    ⟨fun ⟨windows, slack, gap⟩ => ⟨windows, slack, gap⟩, fun ⟨windows, slack, gap⟩ => ⟨windows, slack, gap⟩⟩

/-- No length of time that is asked to go forward goes back. -/
structure Config.Forward (c : Config) : Prop where
  windows : ∀ w ∈ c.windows, 0 < w.length
  burstGap : 0 ≤ c.burstGap

instance (c : Config) : Decidable c.Forward :=
  decidable_of_iff ((∀ w ∈ c.windows, 0 < w.length) ∧ 0 ≤ c.burstGap)
    ⟨fun ⟨windows, gap⟩ => ⟨windows, gap⟩, fun ⟨windows, gap⟩ => ⟨windows, gap⟩⟩

namespace Checked

variable {b : Build}

/-! ## Reading -/

section Lift

variable {α β γ : Type}

theorem lift_eq_ok_iff {x : Except Failure α} {a : α} : (liftM x : Checked α) = .ok a ↔ x = .ok a := by
  cases x with
  | ok found =>
    constructor
    · rintro ⟨⟩
      rfl
    · rintro ⟨⟩
      rfl
  | error cause =>
    constructor
    · rintro ⟨⟩
    · rintro ⟨⟩

theorem lift_bind_eq_ok_iff {x : Except Failure α} {next : α → Checked β} {result : β} :
    (liftM x : Checked α) >>= next = .ok result ↔ ∃ a, x = .ok a ∧ next a = .ok result := by
  simp only [bind_eq_ok_iff, lift_eq_ok_iff]

/-- A walk that first reads each entry and then puts it in words reads all and then puts all in words. -/
theorem mapM_eq_ok_iff_of_step {read : α → Except Failure β} {word : β → Checked γ} {both : α → Checked γ}
    (step : ∀ a c, both a = .ok c ↔ ∃ b, read a = .ok b ∧ word b = .ok c) {l : List α} {words : List γ} :
    l.mapM both = .ok words ↔ ∃ entries, l.mapM read = .ok entries ∧ entries.mapM word = .ok words := by
  induction l generalizing words with
  | nil =>
    constructor
    · rintro ⟨⟩
      exact ⟨[], rfl, rfl⟩
    · rintro ⟨_, ⟨⟩, same⟩
      exact same
  | cons a rest ih =>
    simp only [List.mapM_cons, bind_eq_ok_iff, step, ih]
    constructor
    · rintro ⟨c, ⟨b, first, worded⟩, cs, ⟨bs, later, others⟩, same⟩
      refine ⟨b :: bs, ⟨b, first, bs, later, rfl⟩, ?_⟩
      rw [List.mapM_cons, worded, ok_bind, others]
      exact same
    · rintro ⟨_, ⟨b, first, bs, later, ⟨⟩⟩, same⟩
      rw [List.mapM_cons] at same
      obtain ⟨c, worded, same⟩ := bind_eq_ok_iff.1 same
      obtain ⟨cs, others, same⟩ := bind_eq_ok_iff.1 same
      exact ⟨c, ⟨b, first, worded⟩, cs, ⟨bs, later, others⟩, same⟩

end Lift

theorem readWindow_eq_ok_iff {label : String} {w : Window} :
    readWindow b label = .ok w ↔
      ∃ read, Config.readWindow label = .ok read ∧ windowInWords b read = .ok w := by
  unfold readWindow ofLabel Config.readWindow
  cases Window.ofLabel label with
  | error fault =>
    constructor
    · rintro ⟨⟩
    · rintro ⟨_, ⟨⟩, -⟩
  | ok found =>
    cases found with
    | none =>
      constructor
      · rintro ⟨⟩
      · rintro ⟨_, ⟨⟩, -⟩
    | some read =>
      trans windowInWords b read = .ok w
      · change (windowInWords b read >>= fun w => pure (some w)) >>= _ = _ ↔ _
        cases windowInWords b read <;> exact Iff.rfl
      · refine ⟨fun worded => ⟨read, rfl, worded⟩, ?_⟩
        rintro ⟨_, ⟨⟩, worded⟩
        exact worded

theorem readWindows_eq_ok_iff {raw : String} {windows : List Window} :
    readWindows b raw = .ok windows ↔
      ∃ read, Config.readWindows raw = .ok read ∧ read.mapM (windowInWords b) = .ok windows := by
  have walk {words : List Window} : (Text.items raw).mapM (readWindow b) = .ok words ↔
      ∃ entries, (Text.items raw).mapM Config.readWindow = .ok entries ∧
        entries.mapM (windowInWords b) = .ok words :=
    mapM_eq_ok_iff_of_step fun _ _ => readWindow_eq_ok_iff
  unfold readWindows Config.readWindows
  constructor
  · intro h
    obtain ⟨words, walked, h⟩ := bind_eq_ok_iff.1 h
    obtain ⟨read, reading, wording⟩ := walk.1 walked
    have several := length_of_mapM wording
    cases words with
    | nil => cases h
    | cons first rest =>
      cases h
      cases read with
      | nil => cases several
      | cons own others => exact ⟨own :: others, by rw [reading]; rfl, wording⟩
  · rintro ⟨read, h, wording⟩
    obtain ⟨entries, reading, h⟩ := bind_eq_ok_iff.1 h
    cases entries with
    | nil => cases h
    | cons first rest =>
      cases h
      have several := length_of_mapM wording
      rw [walk.2 ⟨_, reading, wording⟩]
      cases windows with
      | nil => cases several
      | cons own others => rfl

/-- A configuration with its lengths of time in words. -/
def inWords (b : Build) (c : Config) : Checked Config := do
  let windows ← c.windows.mapM (windowInWords b)
  let retentionSlack ← signed b c.retentionSlack
  let burstGap ← signed b c.burstGap
  return { c with windows, retentionSlack, burstGap }

/-- The name of a window is kept. -/
theorem map_label_of_mapM {read words : List Window} (worded : read.mapM (windowInWords b) = .ok words) :
    words.map (·.label) = read.map (·.label) := by
  induction read generalizing words with
  | nil =>
    cases worded
    rfl
  | cons w rest ih =>
    rw [List.mapM_cons] at worded
    obtain ⟨own, first, worded⟩ := bind_eq_ok_iff.1 worded
    obtain ⟨others, later, worded⟩ := bind_eq_ok_iff.1 worded
    obtain ⟨length, -, first⟩ := bind_eq_ok_iff.1 first
    cases worded
    cases first
    rw [List.map_cons, List.map_cons, ih later]

theorem any_label_of_mapM {read words : List Window} (worded : read.mapM (windowInWords b) = .ok words)
    (name : String) :
    words.any (fun w => w.label == name) = read.any (fun w => w.label == name) := by
  have labels := congrArg (List.any · (· == name)) (map_label_of_mapM worded)
  simpa only [List.any_map, Function.comp_def] using labels

/-- **Settings are read in words as they are read otherwise**, up to lengths of time that do not fit. -/
theorem load_eq_ok_iff {lookup : Config.Lookup} {c : Config} :
    load b lookup = .ok c ↔ ∃ exact, Config.load lookup = .ok exact ∧ inWords b exact = .ok c := by
  constructor
  · intro h
    unfold load at h
    dsimp only at h
    obtain ⟨windows, reading, h⟩ := bind_eq_ok_iff.1 h
    obtain ⟨read, windowsRead, worded⟩ := readWindows_eq_ok_iff.1 reading
    split at h
    · cases h
    · rename_i listed
      -- Apart from the two products every reader is the same in both, so what each has read is handed on.
      rw [any_label_of_mapM worded] at listed
      simp only [lift_bind_eq_ok_iff] at h
      obtain ⟨triggers, triggersRead, outcomes, outcomesRead, gap, gapRead, rsiPeriod, rsiPeriodRead,
        volatility, volatilityRead, pips, pipsRead, alpha, alphaRead, bands, bandsRead, rsi, rsiRead,
        k, kRead, d, dRead, zScore, zScoreRead, rank, rankRead, band, bandRead, port, portRead,
        slack, slackRead, h⟩ := h
      obtain ⟨retentionSlack, slackWord, h⟩ := bind_eq_ok_iff.1 h
      obtain ⟨interval, intervalRead, h⟩ := lift_bind_eq_ok_iff.1 h
      obtain ⟨burstGap, gapWord, h⟩ := bind_eq_ok_iff.1 h
      simp only [lift_bind_eq_ok_iff] at h
      obtain ⟨minTotal, minTotalRead, reload, reloadRead, h⟩ := h
      refine ⟨{ c with windows := read, retentionSlack := slack * minute, burstGap := gap }, ?_, ?_⟩
      · cases h
        refine bind_eq_ok_iff.2 ⟨read, windowsRead, ?_⟩
        rw [if_neg listed]
        simp only [bind_eq_ok_iff]
        exact ⟨triggers, triggersRead, outcomes, outcomesRead, gap, gapRead, rsiPeriod, rsiPeriodRead,
          volatility, volatilityRead, pips, pipsRead, alpha, alphaRead, bands, bandsRead, rsi, rsiRead,
          k, kRead, d, dRead, zScore, zScoreRead, rank, rankRead, band, bandRead, port, portRead,
          slack, slackRead, interval, intervalRead, minTotal, minTotalRead, reload, reloadRead, rfl⟩
      · cases h
        rw [inWords, worded, ok_bind, slackWord, ok_bind, gapWord]
        rfl
  · rintro ⟨exact, h, words⟩
    obtain ⟨windows, worded, words⟩ := bind_eq_ok_iff.1 words
    obtain ⟨retentionSlack, slackWord, words⟩ := bind_eq_ok_iff.1 words
    obtain ⟨burstGap, gapWord, words⟩ := bind_eq_ok_iff.1 words
    obtain rfl := Except.ok.inj words
    unfold Config.load at h
    dsimp only at h
    obtain ⟨read, windowsRead, h⟩ := bind_eq_ok_iff.1 h
    split at h
    · cases h
    · rename_i listed
      simp only [bind_eq_ok_iff] at h
      obtain ⟨triggers, triggersRead, outcomes, outcomesRead, gap, gapRead, rsiPeriod, rsiPeriodRead,
        volatility, volatilityRead, pips, pipsRead, alpha, alphaRead, bands, bandsRead, rsi, rsiRead,
        k, kRead, d, dRead, zScore, zScoreRead, rank, rankRead, band, bandRead, port, portRead,
        slack, slackRead, interval, intervalRead, minTotal, minTotalRead, reload, reloadRead, h⟩ := h
      cases h
      rw [← any_label_of_mapM worded] at listed
      refine bind_eq_ok_iff.2 ⟨windows, readWindows_eq_ok_iff.2 ⟨read, windowsRead, worded⟩, ?_⟩
      rw [if_neg listed]
      simp only [lift_bind_eq_ok_iff]
      refine ⟨triggers, triggersRead, outcomes, outcomesRead, gap, gapRead, rsiPeriod, rsiPeriodRead,
        volatility, volatilityRead, pips, pipsRead, alpha, alphaRead, bands, bandsRead, rsi, rsiRead,
        k, kRead, d, dRead, zScore, zScoreRead, rank, rankRead, band, bandRead, port, portRead,
        slack, slackRead, bind_eq_ok_iff.2 ⟨retentionSlack, slackWord, lift_bind_eq_ok_iff.2
          ⟨interval, intervalRead, bind_eq_ok_iff.2 ⟨burstGap, gapWord, ?_⟩⟩⟩⟩
      simp only [lift_bind_eq_ok_iff]
      exact ⟨minTotal, minTotalRead, reload, reloadRead, rfl⟩

/-! ## Lengths of time -/

theorem windowInWords_eq {w : Window} (fits : fitsSigned w.length = true) (b : Build) :
    windowInWords b w = .ok w := by
  rw [windowInWords, signed_eq fits]
  rfl

theorem inWords_eq {c : Config} (fits : c.LengthsFit) (b : Build) : inWords b c = .ok c := by
  have windows : c.windows.mapM (windowInWords b) = .ok c.windows := by
    rw [mapM_eq_ok fun w mem => windowInWords_eq (fits.windows w mem) b, List.map_id']
  rw [inWords, windows, ok_bind, signed_eq fits.retentionSlack, ok_bind, signed_eq fits.burstGap]
  rfl

/-- In a program built to notice, a number that has been computed is the one it should be. -/
theorem signed_checking {n word : Int} (computed : signed .checking n = .ok word) :
    fitsSigned n = true := by
  unfold signed Build.signed? at computed
  by_cases fits : fitsSigned n = true
  · exact fits
  · rw [if_neg fits] at computed
    cases computed

theorem lengthsFit_checking {c words : Config} (worded : inWords .checking c = .ok words) :
    c.LengthsFit := by
  obtain ⟨windows, lengths, worded⟩ := bind_eq_ok_iff.1 worded
  obtain ⟨slack, slackWord, worded⟩ := bind_eq_ok_iff.1 worded
  obtain ⟨gap, gapWord, -⟩ := bind_eq_ok_iff.1 worded
  refine ⟨fun w mem => ?_, signed_checking slackWord, signed_checking gapWord⟩
  obtain ⟨own, first⟩ := exists_ok_of_mapM lengths mem
  obtain ⟨length, computed, -⟩ := bind_eq_ok_iff.1 first
  exact signed_checking computed

/-- What is not a length of time is the same in words. -/
theorem eq_of_inWords {c words : Config} (worded : inWords b c = .ok words) :
    words = { c with
      windows := words.windows, retentionSlack := words.retentionSlack, burstGap := words.burstGap } ∧
      words.windows.map (·.label) = c.windows.map (·.label) := by
  obtain ⟨windows, lengths, worded⟩ := bind_eq_ok_iff.1 worded
  obtain ⟨slack, -, worded⟩ := bind_eq_ok_iff.1 worded
  obtain ⟨gap, -, worded⟩ := bind_eq_ok_iff.1 worded
  cases worded
  exact ⟨rfl, map_label_of_mapM lengths⟩

end Checked

namespace Config

/-- A guarded configuration whose lengths of time are replaced is guarded if they go forward. -/
theorem Guarded.replace {c : Config} (guarded : c.Guarded) {windows : List Window}
    (labels : windows.map (·.label) = c.windows.map (·.label)) {slack gap : Int}
    (forward : Forward { c with windows := windows, retentionSlack := slack, burstGap := gap }) :
    Guarded { c with windows := windows, retentionSlack := slack, burstGap := gap } where
  whole :=
    { triggers := guarded.whole.triggers
      outcomes := guarded.whole.outcomes
      periods := guarded.whole.periods
      volatility := guarded.whole.volatility
      burstGap := forward.burstGap
      windows := forward.windows
      listed := by
        obtain ⟨w, mem, named⟩ := guarded.whole.listed
        have there : c.oscillators.window ∈ windows.map (·.label) := by
          rw [labels, ← named]
          exact List.mem_map_of_mem mem
        exact List.mem_map.1 there }
  measures := by
    intro x measured
    refine guarded.measures x ?_
    cases measured with
    | trigger listed => exact .trigger listed
    | outcome listed => exact .outcome listed
    | pip given => exact .pip given
  alpha := guarded.alpha
  bands := guarded.bands

theorem Valid.forward {c : Config} (valid : c.Valid) : c.Forward :=
  ⟨valid.whole.windows, valid.whole.burstGap⟩

end Config

namespace Checked

variable {b : Build}

/-- In words a guarded configuration is guarded still, unless a length has come out as one that goes back. -/
theorem guarded_of_inWords {c words : Config} (guarded : c.Guarded)
    (worded : inWords b c = .ok words) (forward : words.Forward) : words.Guarded := by
  obtain ⟨same, labels⟩ := eq_of_inWords worded
  rw [same] at forward ⊢
  exact guarded.replace labels forward

/-- **What an accepted configuration is, in words.** It is one that is accepted with numbers of any size,
and so all that is asked of whole numbers, names and the smoothing holds of that one, no length is zero or
less, and no upper band is at most the lower one; up to its lengths of time, which are put in words, and in
words it is the same where the lengths fit or the program was built to notice. It is as it is meant to be
exactly when the floats that are asked not to be too small are numbers, the z-score's band is not negative,
and no window and no gap has come out as one that goes back. -/
theorem load_valid_exactly {lookup : Config.Lookup} {c : Config} (loaded : load b lookup = .ok c) :
    (∃ exact, Config.load lookup = .ok exact ∧ exact.Guarded ∧ inWords b exact = .ok c ∧
      (b = .checking ∨ exact.LengthsFit → c = exact ∧ c.Forward)) ∧
    (c.Valid ↔ c.Numeric ∧ 0.0 ≤ c.oscillators.zScoreBand ∧ c.Forward) := by
  obtain ⟨exact, accepted, worded⟩ := load_eq_ok_iff.1 loaded
  have guarded := (Config.load_reads accepted).guarded
  refine ⟨⟨exact, accepted, guarded, worded, fun known => ?_⟩, fun valid => ?_, ?_⟩
  · have fits : exact.LengthsFit := by
      rcases known with rfl | fits
      · exact lengthsFit_checking worded
      · exact fits
    rw [inWords_eq fits] at worded
    cases worded
    exact ⟨rfl, guarded.whole.windows, guarded.whole.burstGap⟩
  · have own := guarded_of_inWords guarded worded valid.forward
    obtain ⟨numeric, band⟩ := own.valid_iff.1 valid
    exact ⟨numeric, band, valid.forward⟩
  · rintro ⟨numeric, band, forward⟩
    have own := guarded_of_inWords guarded worded forward
    exact own.valid_iff.2 ⟨numeric, band⟩

/-- A trigger that asks for no number of pips. -/
def undefinedSetup : Config.Lookup
  | "TRIGGER_GRID" => some "nan:10"
  | _ => none

/-- A band of the z-score whose upper end is below the lower one. -/
def invertedSetup : Config.Lookup
  | "ZSCORE_BAND" => some "-1"
  | _ => none

/-- A window of more milliseconds than a signed word holds. -/
def longSetup : Config.Lookup
  | "WINDOWS" => some "153722867280913m"
  | "OSC_WINDOW" => some "153722867280913m"
  | _ => none

/-- The defaults are valid. A trigger of `nan` pips, a negative band, and in a program that goes on a
window that is too long, are accepted and are not. -/
theorem load_valid_exactly_accepted :
    (∃ c, load .wrapping (fun _ => none) = .ok c ∧ c.Valid) ∧
    (∃ c, load .wrapping undefinedSetup = .ok c ∧ ¬ c.Numeric ∧ ¬ c.Valid) ∧
    (∃ c, load .wrapping invertedSetup = .ok c ∧ ¬ 0.0 ≤ c.oscillators.zScoreBand ∧ ¬ c.Valid) ∧
    ∃ c, load .wrapping longSetup = .ok c ∧ ¬ c.Forward ∧ ¬ c.Valid := by
  refine ⟨?_, ?_, ?_, ?_⟩
  · have computed : (load .wrapping fun _ => none).toOption.any (fun c =>
        decide (c.Numeric ∧ 0.0 ≤ c.oscillators.zScoreBand ∧ c.Forward)) = true := by
      decide +kernel
    obtain ⟨c, loaded, asked⟩ := exists_ok_of_any computed
    exact ⟨c, loaded, (load_valid_exactly loaded).2.2 (of_decide_eq_true asked)⟩
  · have computed : (load .wrapping undefinedSetup).toOption.any (fun c =>
        decide ¬ c.Numeric) = true := by
      decide +kernel
    obtain ⟨c, loaded, undefined⟩ := exists_ok_of_any computed
    have undefined := of_decide_eq_true undefined
    exact ⟨c, loaded, undefined, fun valid => undefined ((load_valid_exactly loaded).2.1 valid).1⟩
  · have computed : (load .wrapping invertedSetup).toOption.any (fun c =>
        decide ¬ 0.0 ≤ c.oscillators.zScoreBand) = true := by
      decide +kernel
    obtain ⟨c, loaded, inverted⟩ := exists_ok_of_any computed
    have inverted := of_decide_eq_true inverted
    exact ⟨c, loaded, inverted, fun valid => inverted ((load_valid_exactly loaded).2.1 valid).2.1⟩
  · have computed : (load .wrapping longSetup).toOption.any (fun c => decide ¬ c.Forward) = true := by
      decide +kernel
    obtain ⟨c, loaded, backward⟩ := exists_ok_of_any computed
    have backward := of_decide_eq_true backward
    exact ⟨c, loaded, backward, fun valid => backward ((load_valid_exactly loaded).2.1 valid).2.2⟩

/-! ## How far back history is kept -/

theorem max?_getD_eq_foldl {lengths : List Int} (forward : ∀ n ∈ lengths, 0 ≤ n) :
    lengths.max?.getD 0 = lengths.foldl max 0 := by
  cases lengths with
  | nil => rfl
  | cons first rest =>
    rw [List.max?_cons', Option.getD_some, List.foldl_cons,
      Int.max_eq_right (forward first List.mem_cons_self)]

/-- Words hold what is computed on the way to the retention. -/
structure RetentionFits (c : Config) : Prop where
  triggers : ∀ t ∈ c.triggers, fitsSigned t.window = true
  state : c.state.Fits
  product : fitsSigned (wrapSigned c.state.lookback * minute) = true
  sum : fitsSigned c.retention = true

theorem retention_eq {c : Config} (windows : ∀ w ∈ c.windows, 0 ≤ w.length)
    (triggers : ∀ t ∈ c.triggers, 0 ≤ t.minutes) (fits : RetentionFits c) (b : Build) :
    retention b c = .ok c.retention := by
  have lengths : ∀ n ∈ c.windows.map (·.length), 0 ≤ n := by
    intro n mem
    obtain ⟨w, there, rfl⟩ := List.mem_map.1 mem
    exact windows w there
  have reaches : ∀ n ∈ c.triggers.map Trigger.window, 0 ≤ n := by
    intro n mem
    obtain ⟨t, there, rfl⟩ := List.mem_map.1 mem
    exact Int.mul_nonneg (triggers t there) (by decide)
  have triggered : c.triggers.mapM (window b) = .ok (c.triggers.map Trigger.window) :=
    mapM_eq_ok fun t mem => signed_eq (fits.triggers t mem) b
  unfold retention
  dsimp only
  rw [triggered, ok_bind, lookback_eq fits.state, ok_bind, signed_eq fits.product, ok_bind,
    max?_getD_eq_foldl lengths, max?_getD_eq_foldl reaches]
  exact signed_eq fits.sum b

theorem retention_ends (c : Config) : Ends b (retention b c) := by
  refine (Ends.mapM fun t _ => .signed _).bind fun triggers _ => ?_
  refine (lookback_ends c.state).bind fun state _ => ?_
  exact (Ends.signed _).bind fun _ _ => .signed _

end Checked

end FxPulse
