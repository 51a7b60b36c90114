import FxPulse.Proofs.Number.Range
import FxPulse.Proofs.Number.Sample
import FxPulse.Proofs.Scan.Cells

/-!
# `Proofs/Scan/Smoothed.lean` — probabilities strictly between zero and one

A rate is smoothed so that no row is certain: successes and failures are taken as if there had been a few more of
either. In exact arithmetic that puts every rate strictly between zero and one. As floats the two sums and the
doubled smoothing are rounded before they are divided, and so

> a probability lies strictly between zero and one just if the total is finite, the successes have not been rounded
> up to it, and their share of it is not too small for a float (`laplace_strict_iff`).

It does for every smoothing that is no tiny part of the total and has a double (`laplace_strict`). One that vanishes
beside the counts can leave one, one without a double gives zero, and an infinite one gives no number at all.
-/

set_option autoImplicit false

namespace FxPulse

open FxPulse.Number

namespace Counts

/-- The successes, and as many more as the smoothing says. -/
def smoothedSuccesses (c : Counts) (alpha : Float) : Float := c.successes.toFloat + alpha

/-- The cases, with as many more of either kind. -/
def smoothedTotal (c : Counts) (alpha : Float) : Float := c.total.toFloat + 2.0 * alpha

/-- The rate that a row gives. -/
def rate (c : Counts) (alpha : Float) : Float := laplace c.successes c.total alpha

end Counts

/-! ## Counts and a smoothing -/

section Count

variable {n : ℕ} (few : n < 2 ^ 64)
include few

theorem nearest_count_le : nearest n ≤ 2 ^ (64 : ℤ) :=
  (nearest_mono (by exact_mod_cast few.le)).trans_eq (nearest_of_fits (fits_two_zpow (by norm_num)))

theorem rounded_count : rounded n = (nearest n : ℝ) := by
  rw [← EReal.coe_natCast, rounded_coe, bounded_of_lt]
  rw [abs_of_nonneg (nearest_nonneg n.cast_nonneg)]
  exact (nearest_count_le few).trans_lt (zpow_lt_zpow_right₀ one_lt_two (by norm_num))

end Count

section Sums

variable {x : Float} (number : x.isNaN = false) (nonneg : 0 ≤ worth x)
include number nonneg

theorem stands_count_add (n : ℕ) : Stands (n.toFloat + x) (rounded (rounded n + worth x)) := by
  have count : (0 : EReal) ≤ rounded n := rounded_nonneg (by exact_mod_cast Nat.zero_le n)
  exact (stands_toFloat n).add (stands_worth number) (.inr (EReal.bot_lt_zero.trans_le nonneg).ne')
    (.inl (EReal.bot_lt_zero.trans_le count).ne')

theorem worth_le_count_add (n : ℕ) : worth x ≤ worth (n.toFloat + x) := by
  have count : (0 : EReal) ≤ rounded n := rounded_nonneg (by exact_mod_cast Nat.zero_le n)
  rw [(stands_count_add number nonneg n).worth_eq, ← rounded_worth x]
  refine rounded_mono ?_
  rw [rounded_worth]
  exact le_add_of_nonneg_left count

/-- A count makes no sum infinite. -/
theorem isFinite_count_add_iff {n : ℕ} (few : n < 2 ^ 64) :
    (n.toFloat + x).isFinite = true ↔ x.isFinite = true := by
  have sum := stands_count_add number nonneg n
  constructor
  · intro finite
    obtain ⟨w, stands, -⟩ := exists_stands_of_isFinite finite
    refine (stands_worth number).isFinite_of_between (r := 0) (s := w) nonneg ?_
    exact (worth_le_count_add number nonneg n).trans_eq stands.worth_eq
  · intro finite
    obtain ⟨r, stands, fits, small⟩ := exists_stands_of_isFinite finite
    rw [stands.worth_eq, EReal.coe_nonneg] at nonneg
    rw [rounded_count few, stands.worth_eq, ← EReal.coe_add] at sum
    rw [sum.isFinite_iff_lt_overflow (add_nonneg (nearest_nonneg n.cast_nonneg) nonneg), add_comm]
    refine fits.add_lt_overflow nonneg ((le_abs_self r).trans_lt small) ((nearest_count_le few).trans_lt ?_)
    exact zpow_lt_zpow_right₀ one_lt_two (by norm_num)

end Sums

section Smoothing

variable {c : Counts} {alpha : Float} (positive : 0.0 < alpha)
include positive

theorem worth_smoothing_pos : 0 < worth alpha :=
  (stands_zero.lt_iff (stands_worth (isNaN_of_lt positive).2)).1 positive

theorem stands_double : Stands (2.0 * alpha) (rounded (2 * worth alpha)) :=
  stands_two.mul (stands_worth (isNaN_of_lt positive).2) (fun zero => absurd zero two_ne_zero)
    fun _ => stands_two.isFinite (r := 2)

theorem worth_le_double : worth alpha ≤ worth (2.0 * alpha) := by
  have nonneg := (worth_smoothing_pos positive).le
  rw [(stands_double positive).worth_eq, ← rounded_worth alpha]
  refine rounded_mono ?_
  rw [rounded_worth]
  exact le_mul_of_one_le_left nonneg one_le_two

theorem number_double : (2.0 * alpha).isNaN = false := (stands_double positive).number

theorem double_nonneg : 0 ≤ worth (2.0 * alpha) :=
  (worth_smoothing_pos positive).le.trans (worth_le_double positive)

theorem number_smoothedSuccesses : (c.smoothedSuccesses alpha).isNaN = false :=
  (stands_count_add (isNaN_of_lt positive).2 (worth_smoothing_pos positive).le _).number

theorem number_smoothedTotal : (c.smoothedTotal alpha).isNaN = false :=
  (stands_count_add (number_double positive) (double_nonneg positive) _).number

theorem le_worth_smoothedSuccesses : worth alpha ≤ worth (c.smoothedSuccesses alpha) :=
  worth_le_count_add (isNaN_of_lt positive).2 (worth_smoothing_pos positive).le _

variable (sound : c.successes ≤ c.total)
include sound

/-- No more successes than cases, smoothed or not. -/
theorem smoothedSuccesses_le : worth (c.smoothedSuccesses alpha) ≤ worth (c.smoothedTotal alpha) := by
  have number := (isNaN_of_lt positive).2
  rw [Counts.smoothedSuccesses, Counts.smoothedTotal,
    (stands_count_add number (worth_smoothing_pos positive).le _).worth_eq,
    (stands_count_add (number_double positive) (double_nonneg positive) _).worth_eq]
  exact rounded_mono (add_le_add (rounded_mono (by exact_mod_cast sound)) (worth_le_double positive))

/-! ## Rates -/

/-- A rate is no number if the successes are infinite, and the cases with them. -/
theorem isNaN_rate_iff : (c.rate alpha).isNaN = true ↔ (c.smoothedSuccesses alpha).isFinite = false := by
  have pos := (worth_smoothing_pos positive).trans_le (le_worth_smoothedSuccesses (c := c) positive)
  have le := smoothedSuccesses_le positive sound
  have near := stands_worth (number_smoothedSuccesses (c := c) positive)
  have whole := stands_worth (number_smoothedTotal (c := c) positive)
  constructor
  · intro undefined
    by_contra finite
    have quotient := near.div whole (pos.trans_le le).ne' (.inl (Bool.not_eq_false _ ▸ finite))
    exact Bool.false_ne_true (quotient.number.symm.trans undefined)
  · intro infinite
    by_contra number
    rcases finite_of_div (Bool.not_eq_true _ ▸ number : (_ / _ : Float).isNaN = false) with finite | finite
    · exact Bool.false_ne_true (infinite.symm.trans finite)
    · obtain ⟨w, stands, -⟩ := exists_stands_of_isFinite finite
      have bounded := near.isFinite_of_between (r := 0) (s := w) pos.le (le.trans_eq stands.worth_eq)
      exact Bool.false_ne_true (infinite.symm.trans bounded)

/-- A share of infinity is zero, unless it is no number. -/
theorem stands_rate_of_infinite (infinite : (c.smoothedTotal alpha).isFinite = false)
    (number : (c.rate alpha).isNaN = false) : Stands (c.rate alpha) 0 := by
  have pos := (worth_smoothing_pos positive).trans_le (le_worth_smoothedSuccesses (c := c) positive)
  have whole_pos := pos.trans_le (smoothedSuccesses_le positive sound)
  have top : worth (c.smoothedTotal alpha) = ⊤ := by
    by_contra less
    have finite := ((stands_worth (number_smoothedTotal positive)).isFinite_iff_of_nonneg whole_pos.le).2 less
    exact Bool.false_ne_true (infinite.symm.trans finite)
  have quotient : Stands (c.rate alpha) (rounded (_ / worth (c.smoothedTotal alpha))) :=
    stands_div_of_number number whole_pos.ne'
  rwa [top, EReal.div_top, rounded_zero] at quotient

/-- **Where a rate is strictly between zero and one.** The total has to be finite, the successes not to have been
rounded up to it, and their share of it to be more than half the least float. -/
theorem laplace_strict_iff :
    (0.0 < c.rate alpha ∧ c.rate alpha < 1.0 ↔
      (c.smoothedTotal alpha).isFinite = true ∧ c.smoothedSuccesses alpha < c.smoothedTotal alpha ∧
        ((2 ^ (-1075 : ℤ) : ℝ) : EReal) * worth (c.smoothedTotal alpha)
          < worth (c.smoothedSuccesses alpha)) := by
  have pos := (worth_smoothing_pos positive).trans_le (le_worth_smoothedSuccesses (c := c) positive)
  have le := smoothedSuccesses_le positive sound
  have near := stands_worth (number_smoothedSuccesses (c := c) positive)
  have whole := stands_worth (number_smoothedTotal (c := c) positive)
  rw [near.lt_iff whole]
  cases finite : (c.smoothedTotal alpha).isFinite with
  | true =>
    obtain ⟨w, stands, fits, -⟩ := exists_stands_of_isFinite finite
    rw [stands.worth_eq] at le ⊢
    obtain ⟨r, stands', fits', -⟩ := exists_stands_of_isFinite (near.isFinite_of_between (r := 0) pos.le le)
    rw [stands'.worth_eq] at pos le ⊢
    have quotient : Stands (c.rate alpha) _ :=
      stands'.div stands (pos.trans_le le).ne' (.inl stands'.isFinite)
    have w_pos : 0 < w := EReal.coe_pos.1 (pos.trans_le le)
    rw [stands_zero.lt_iff quotient, quotient.lt_iff stands_one, rounded_div_pos_iff w_pos,
      rounded_div_lt_one_iff w_pos fits' fits (EReal.coe_pos.1 pos).le, ← EReal.coe_mul,
      EReal.coe_lt_coe_iff, EReal.coe_lt_coe_iff]
    tauto
  | false =>
    refine iff_of_false (fun strict => ?_) fun h => Bool.false_ne_true h.1
    have share := stands_rate_of_infinite positive sound finite (isNaN_of_lt strict.1).2
    exact ((stands_zero.lt_iff share).1 strict.1).false

/-- If twice the smoothing is finite, so is everything else, and nothing is rounded but the counts and the sums. -/
theorem stands_smoothed (few : c.total < 2 ^ 64) (finite : (2.0 * alpha).isFinite = true) :
    ∃ a : ℝ, worth alpha = a ∧ Fits a ∧
      Stands (c.smoothedSuccesses alpha) (nearest (nearest c.successes + a) : ℝ) ∧
      Stands (c.smoothedTotal alpha) (nearest (nearest c.total + 2 * a) : ℝ) := by
  have number := (isNaN_of_lt positive).2
  have nonneg := (worth_smoothing_pos positive).le
  obtain ⟨d, double, -⟩ := exists_stands_of_isFinite finite
  have alpha_finite := (stands_worth number).isFinite_of_between (r := 0) nonneg
    ((worth_le_double positive).trans_eq double.worth_eq)
  obtain ⟨a, smoothing, fits, -⟩ := exists_stands_of_isFinite alpha_finite
  obtain ⟨r, near, -⟩ :=
    exists_stands_of_isFinite ((isFinite_count_add_iff number nonneg (sound.trans_lt few)).2 alpha_finite)
  obtain ⟨w, whole, -⟩ := exists_stands_of_isFinite
    ((isFinite_count_add_iff (number_double positive) (double_nonneg positive) few).2 finite)
  have double_eq : d = 2 * a := by
    have nearest_eq := (stands_double positive).worth_eq.symm.trans double.worth_eq
    rw [smoothing.worth_eq] at nearest_eq
    exact (nearest_eq_of_rounded nearest_eq).symm.trans (nearest_of_fits fits.double)
  have near_eq : nearest (nearest c.successes + a) = r := by
    have sum := stands_count_add number nonneg c.successes
    rw [rounded_count (sound.trans_lt few), smoothing.worth_eq, ← EReal.coe_add] at sum
    exact nearest_eq_of_rounded (sum.worth_eq.symm.trans near.worth_eq)
  have whole_eq : nearest (nearest c.total + 2 * a) = w := by
    have sum := stands_count_add (number_double positive) (double_nonneg positive) c.total
    rw [rounded_count few, double.worth_eq, double_eq, ← EReal.coe_add] at sum
    exact nearest_eq_of_rounded (sum.worth_eq.symm.trans whole.worth_eq)
  exact ⟨a, smoothing.worth_eq, fits, near_eq ▸ near, whole_eq ▸ whole⟩

/-- **A smoothing that is no tiny part of the cases, and has a double, leaves no row certain.** -/
theorem laplace_strict (few : c.total < 2 ^ 64) (finite : (2.0 * alpha).isFinite = true)
    (some_case : 1 ≤ c.total) (part : (c.total : EReal) ≤ ((2 ^ 51 : ℝ) : EReal) * worth alpha) :
    0.0 < c.rate alpha ∧ c.rate alpha < 1.0 := by
  obtain ⟨a, same, fits, near, whole⟩ := stands_smoothed positive sound few finite
  have part : (c.total : ℝ) ≤ 2 ^ 51 * a := by
    rw [same] at part
    exact_mod_cast part
  have least : (2 : ℝ) ^ (-51 : ℤ) ≤ a := by
    have one : (1 : ℝ) ≤ c.total := by exact_mod_cast some_case
    norm_num
    linarith
  have part' : nearest c.total ≤ 2 ^ 51 * a :=
    (nearest_mono part).trans_eq (nearest_of_fits (fits.two_pow_mul 51))
  have cases_le : nearest c.successes ≤ nearest c.total := nearest_mono (by exact_mod_cast sound)
  have successes_nonneg : 0 ≤ nearest c.successes := nearest_nonneg c.successes.cast_nonneg
  rw [laplace_strict_iff positive sound, near.lt_iff whole, near.worth_eq, whole.worth_eq, ← EReal.coe_mul,
    EReal.coe_lt_coe_iff, EReal.coe_lt_coe_iff]
  refine ⟨whole.isFinite, nearest_add_lt_nearest_add_two_mul least successes_nonneg cases_le part', ?_⟩
  have low : a ≤ nearest (nearest c.successes + a) :=
    (nearest_of_fits fits).symm.trans_le (nearest_mono (le_add_of_nonneg_left successes_nonneg))
  have high : nearest (nearest c.total + 2 * a) ≤ 2 ^ 52 * a := by
    refine (nearest_mono ?_).trans_eq (nearest_of_fits (fits.two_pow_mul 52))
    linarith
  calc 2 ^ (-1075 : ℤ) * nearest (nearest c.total + 2 * a) ≤ 2 ^ (-1075 : ℤ) * (2 ^ 52 * a) :=
        mul_le_mul_of_nonneg_left high (two_zpow_pos _).le
    _ = 2 ^ (-1023 : ℤ) * a := by
        rw [← mul_assoc, show (-1023 : ℤ) = -1075 + 52 by norm_num, two_zpow_add, zpow_ofNat]
    _ < 1 * a := mul_lt_mul_of_pos_right (zpow_lt_one_of_neg₀ one_lt_two (by norm_num))
        ((two_zpow_pos _).trans_le least)
    _ ≤ nearest (nearest c.successes + a) := (one_mul a).trans_le low

/-- A rate that is a number is none below zero or above one. -/
theorem rate_mem (number : (c.rate alpha).isNaN = false) : 0.0 ≤ c.rate alpha ∧ c.rate alpha ≤ 1.0 := by
  have pos := (worth_smoothing_pos positive).trans_le (le_worth_smoothedSuccesses (c := c) positive)
  have le := smoothedSuccesses_le positive sound
  have finite : (c.smoothedSuccesses alpha).isFinite = true := by
    by_contra infinite
    exact Bool.false_ne_true
      (number.symm.trans ((isNaN_rate_iff positive sound).2 (Bool.not_eq_true _ ▸ infinite)))
  obtain ⟨v, share, nonneg, one⟩ : UpTo (c.rate alpha) 1 :=
    upTo_share (stands_worth (number_smoothedSuccesses positive)) (stands_worth (number_smoothedTotal positive))
      pos.le le (pos.trans_le le) finite
  exact ⟨(stands_zero.le_iff share).2 nonneg, (share.le_iff stands_one).2 one⟩

end Smoothing

/-! ## Scanned probabilities -/

namespace InstrumentScan

/-- A row shows the rate of its counts. -/
theorem rate_of_mem_rows {s : InstrumentScan} {alpha : Float} {row : Row} (h : row ∈ s.rows alpha) :
    row.probability = .float (row.counts.rate alpha) := by
  obtain ⟨⟨key, counts⟩, -, rfl⟩ := List.mem_map.1 h
  rfl

end InstrumentScan

namespace Scan

/-- **Where a scanned probability is strictly between zero and one.** For every configuration that is accepted and
all bars that `validate` accepts, a scan that no look calls off has an answer, and each of its rows shows the rate
of its counts. This lies strictly between zero and one just if the smoothed total is finite, the smoothed successes
have not been rounded up to it, and their share is more than half the least float. Else a row shows zero or one where
it shows a number, and zero if the total is infinite. Of fewer than `2 ^ 64` cases a row shows no number exactly if the
smoothing is infinite, the total is finite exactly if twice the smoothing is, and then the probability is strictly
between zero and one if the cases are at most `2 ^ 51` times as many as the smoothing. -/
theorem load_probabilities {lookup : Config.Lookup} {c : Config} (loaded : Config.load lookup = .ok c)
    {symbol : String} {bars : Array Bar} (valid : validate symbol bars = .ok ()) (cancelled : Nat → Bool)
    (unseen : ∀ i < bars.size, i % checkEvery = 0 → cancelled i = false) (pip : Float) :
    ∃ scan, run c.scan cancelled symbol bars pip = .ok scan ∧
      ∀ row ∈ scan.rows c.alpha, ∃ p : Float, row.probability = .float p ∧
        (0.0 < p ∧ p < 1.0 ↔
          (row.counts.smoothedTotal c.alpha).isFinite = true ∧
            row.counts.smoothedSuccesses c.alpha < row.counts.smoothedTotal c.alpha ∧
            ((2 ^ (-1075 : ℤ) : ℝ) : EReal) * worth (row.counts.smoothedTotal c.alpha)
              < worth (row.counts.smoothedSuccesses c.alpha)) ∧
        (p.isNaN = false → 0.0 ≤ p ∧ p ≤ 1.0) ∧
        ((row.counts.smoothedTotal c.alpha).isFinite = false → p.isNaN = false → (p == 0.0) = true) ∧
        (row.counts.total < 2 ^ 64 →
          (p.isNaN = true ↔ c.alpha.isFinite = false) ∧
          ((row.counts.smoothedTotal c.alpha).isFinite = true ↔ (2.0 * c.alpha).isFinite = true) ∧
          ((2.0 * c.alpha).isFinite = true →
            (row.counts.total : EReal) ≤ ((2 ^ 51 : ℝ) : EReal) * worth c.alpha → 0.0 < p ∧ p < 1.0)) := by
  have forward : ∀ o ∈ c.scan.outcomes, 0 ≤ o.minutes :=
    fun o mem => Int.le_of_lt ((Config.load_reads loaded).whole.outcomes o mem)
  have answered := run_eq_of_unseen valid forward (Config.load_proper loaded) unseen pip
  have positive : 0.0 < c.alpha := (Config.load_reads loaded).guarded.alpha
  refine ⟨_, answered, fun row mem => ⟨_, InstrumentScan.rate_of_mem_rows mem, ?_⟩⟩
  have sound := (InstrumentScan.sound_of_mem_rows (run_sound answered) mem).2
  refine ⟨laplace_strict_iff positive sound, rate_mem positive sound, fun infinite number => ?_,
    fun few => ⟨?_, ?_, fun finite part => ?_⟩⟩
  · exact ((stands_rate_of_infinite positive sound infinite number).beq_iff stands_zero).2 rfl
  · rw [isNaN_rate_iff positive sound, ← Bool.not_eq_true, ← Bool.not_eq_true, not_iff_not]
    exact isFinite_count_add_iff (isNaN_of_lt positive).2 (worth_smoothing_pos positive).le (sound.trans_lt few)
  · exact isFinite_count_add_iff (number_double positive) (double_nonneg positive) few
  · have entered : 1 ≤ row.counts.total := by
      obtain ⟨⟨key, counts⟩, held, rfl⟩ := List.mem_map.1 mem
      exact Tally.one_le_total (Std.ExtTreeMap.mem_toList_iff_getElem?_eq_some.1 held)
    exact laplace_strict positive sound few finite entered part

/-- Grids of one entry each, and a smoothing. -/
def smoothedSetup (alpha : String) : Config.Lookup
  | "LAPLACE_ALPHA" => some alpha
  | name => gridSetup "8:1" "15:1" name

/-- The jump is one case and a success. With a smoothing of one its rate is two thirds. With one that has no double
it is zero, and with one that vanishes beside the case it is one. -/
theorem load_probabilities_extremes :
    validate "EURUSD" jump = .ok () ∧
    ∀ e ∈ [("1.0", (2.0 / 3.0 : Float)), ("1e308", 0.0), ("1e-20", 1.0)],
      ∃ c, Config.load (smoothedSetup e.1) = .ok c ∧
        ∃ scan, run c.scan (fun _ => false) "EURUSD" jump 0.0001 = .ok scan ∧
          ∃ row ∈ scan.rows c.alpha, row.probability = .float e.2 ∧
            (0.0 < e.2 ∧ e.2 < 1.0 ↔
              (row.counts.smoothedTotal c.alpha).isFinite = true ∧
                row.counts.smoothedSuccesses c.alpha < row.counts.smoothedTotal c.alpha ∧
                ((2 ^ (-1075 : ℤ) : ℝ) : EReal) * worth (row.counts.smoothedTotal c.alpha)
                  < worth (row.counts.smoothedSuccesses c.alpha)) := by
  have computed : [("1.0", (2.0 / 3.0 : Float)), ("1e308", 0.0), ("1e-20", 1.0)].all (fun e =>
      (Config.load (smoothedSetup e.1)).toOption.any fun c =>
        (run c.scan (fun _ => false) "EURUSD" jump 0.0001).toOption.any fun scan =>
          (scan.rows c.alpha).any fun row => decide (row.probability = .float e.2)) = true := by
    decide +kernel
  refine ⟨jump_valid, fun e mem => ?_⟩
  obtain ⟨c, loaded, computed⟩ := exists_ok_of_any (List.all_eq_true.1 computed e mem)
  obtain ⟨scan, found, computed⟩ := exists_ok_of_any computed
  obtain ⟨row, listed, shown⟩ := List.any_eq_true.1 computed
  have shown := of_decide_eq_true shown
  obtain ⟨scan', answered, rows⟩ := load_probabilities loaded jump_valid (fun _ => false) (fun _ _ _ => rfl) 0.0001
  obtain rfl : scan = scan' := Except.ok.inj (found.symm.trans answered)
  obtain ⟨p, same, strict, -⟩ := rows row listed
  obtain rfl : e.2 = p := Ranked.float.inj (shown.symm.trans same)
  exact ⟨c, loaded, scan, found, row, listed, shown, strict⟩

end Scan

end FxPulse
