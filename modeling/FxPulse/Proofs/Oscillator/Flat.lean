import FxPulse.Proofs.Number.Sample
import FxPulse.Proofs.Oscillator.Standing

/-!
# `Proofs/Oscillator/Flat.lean` — z-scores of a window in which nothing moves

The score is meant to be zero where nothing deviates, and that is decided by the computed deviation. The mean of
a number repeated need not be that number, though: the sums on the way to it are rounded, and so is the last
division. Three tenths make a mean above one tenth. What is left of each value then is the same distance, and
its root mean square is about that distance again; so the score is not near zero, but near one. It is zero

> just if the square of the distance between value and mean vanishes, or the deviation is too great for a float
> while the distance is not (`feed_flat`).

The distance is zero for every value that a window of them can be summed up of without rounding.
-/

set_option autoImplicit false

namespace FxPulse

open FxPulse.Number

/-! ## Squares -/

theorem Number.Stands.square {x : Float} {v : EReal} (hx : Stands x v) : Stands (x * x) (rounded (v * v)) := by
  have finite : v = 0 → x.isFinite = true := by
    rintro rfl
    exact hx.isFinite (r := 0)
  exact hx.mul hx finite finite

theorem square_nonneg (v : EReal) : 0 ≤ v * v := by
  induction v with
  | bot => exact EReal.bot_mul_bot ▸ le_top
  | top => exact EReal.top_mul_top ▸ le_top
  | coe r =>
    rw [← EReal.coe_mul]
    exact EReal.coe_nonneg.2 (mul_self_nonneg r)

/-- A square that does not vanish is of no tiny number. -/
theorem le_abs_of_square {r : ℝ} (h : rounded ((r : EReal) * r) ≠ 0) : 2 ^ (-538 : ℤ) ≤ |r| := by
  by_contra! small
  apply h
  rw [← EReal.coe_mul]
  refine rounded_eq_zero (mul_self_nonneg r) ?_
  calc r * r = |r| * |r| := (abs_mul_abs_self r).symm
    _ ≤ 2 ^ (-538 : ℤ) * 2 ^ (-538 : ℤ) := mul_self_le_mul_self (abs_nonneg r) small.le
    _ = 2 ^ (-1076 : ℤ) := by rw [← two_zpow_add]; norm_num

/-- And a number that does not vanish is no less than the least float. -/
theorem least_le_worth {x : Float} (number : x.isNaN = false) (pos : 0 < worth x) :
    ((2 ^ (-1074 : ℤ) : ℝ) : EReal) ≤ worth x := by
  by_cases finite : x.isFinite = true
  · obtain ⟨r, stands, fits, -⟩ := exists_stands_of_isFinite finite
    rw [stands.worth_eq, EReal.coe_pos] at pos
    have apart := (show Fits 0 by simpa using fits_natCast (n := 0) (by norm_num)).le_sub fits pos
    rw [stands.worth_eq, EReal.coe_le_coe_iff]
    rwa [sub_zero] at apart
  · by_contra less
    rw [isFinite_iff_worth number] at finite
    exact finite ⟨(lt_top_of_lt (not_le.1 less)).ne, (EReal.bot_lt_zero.trans pos).ne'⟩

/-! ## Roots -/

section Root

variable {x : Float} {v : EReal} (hx : Stands x v) (nonneg : 0 ≤ v)
include hx nonneg

theorem exists_real_of_ne_top (bounded : v ≠ ⊤) : ∃ r : ℝ, v = r ∧ 0 ≤ r ∧ r < limit := by
  obtain ⟨r, stands, -, small⟩ := exists_stands_of_isFinite ((hx.isFinite_iff_of_nonneg nonneg).2 bounded)
  obtain rfl : v = r := hx.worth_eq.symm.trans stands.worth_eq
  exact ⟨r, rfl, EReal.coe_nonneg.1 nonneg, (le_abs_self r).trans_lt small⟩

/-- The root of a number that is not negative is a number too, and if it is finite no greater than the root of
what is too great for a float. -/
theorem exists_stands_sqrt : ∃ s, Stands x.sqrt s ∧ 0 ≤ s ∧ (s ≠ ⊤ → s ≤ ((2 ^ (512 : ℤ) : ℝ) : EReal)) := by
  by_cases top : v = ⊤
  · exact ⟨⊤, sqrt_top (top ▸ hx), le_top, fun finite => absurd rfl finite⟩
  · obtain ⟨r, rfl, nonneg, small⟩ := exists_real_of_ne_top hx nonneg top
    refine ⟨_, hx.sqrt nonneg, rounded_nonneg (EReal.coe_nonneg.2 (Real.sqrt_nonneg r)), fun _ => ?_⟩
    have root : √r ≤ 2 ^ (512 : ℤ) := by
      rw [Real.sqrt_le_iff, ← zpow_natCast, ← zpow_mul]
      exact ⟨(two_zpow_pos _).le, small.le.trans_eq (by rw [limit]; norm_num)⟩
    exact (rounded_mono (EReal.coe_le_coe_iff.2 root)).trans_eq (rounded_two_zpow (by norm_num) (by norm_num))

/-- It does not vanish if the number does not. -/
theorem worth_sqrt_pos (least : ((2 ^ (-1074 : ℤ) : ℝ) : EReal) ≤ v) : 0 < worth x.sqrt := by
  by_cases top : v = ⊤
  · rw [(sqrt_top (top ▸ hx)).worth_eq]
    exact EReal.zero_lt_top
  · obtain ⟨r, rfl, nonneg, -⟩ := exists_real_of_ne_top hx nonneg top
    have root : (2 : ℝ) ^ (-537 : ℤ) ≤ √r := by
      refine Real.le_sqrt_of_sq_le ?_
      rw [← zpow_natCast, ← zpow_mul]
      exact (le_of_eq (by norm_num)).trans (EReal.coe_le_coe_iff.1 least)
    rw [(hx.sqrt nonneg).worth_eq]
    refine lt_of_lt_of_le (EReal.coe_pos.2 (two_zpow_pos (-537))) ?_
    exact (rounded_two_zpow (by norm_num) (by norm_num)).symm.trans_le
      (rounded_mono (EReal.coe_le_coe_iff.2 root))

end Root

/-! ## Copies -/

section Copies

variable {n : ℕ} (pos : 0 < n)
include pos

theorem mean_replicate (c : Float) : mean (List.replicate n c) = sum (List.replicate n c) / n.toFloat := by
  rw [mean_of_ne_nil (List.ne_nil_of_length_pos (by rwa [List.length_replicate])), List.length_replicate]

/-- Of copies all squares are the same. -/
theorem deviation_replicate (c : Float) :
    let distance := c - mean (List.replicate n c)
    deviation (List.replicate n c)
      = (sum (List.replicate n (distance * distance)) / n.toFloat).sqrt := by
  intro distance
  rw [deviation, if_neg (by simpa using pos.ne')]
  dsimp only
  rw [List.map_replicate, List.length_replicate]

theorem stands_mean_replicate {c : Float} {r : ℝ} (hc : Stands c r) (few : n ≤ 2 ^ 53) (repeats : Repeats r n) :
    Stands (mean (List.replicate n c)) r := by
  have count := stands_count few
  have some_copy : (n : ℝ) ≠ 0 := by exact_mod_cast pos.ne'
  have divisor : (n : EReal) ≠ 0 := by exact_mod_cast pos.ne'
  have quotient := (stands_sum_replicate hc repeats).div count divisor (.inr (count.isFinite (r := n)))
  have value : (n * r : EReal) / n = r := by
    rw [← EReal.coe_natCast, ← EReal.coe_mul, ← EReal.coe_div, mul_div_cancel_left₀ r some_copy]
  rw [value, hc.rounded_eq] at quotient
  rwa [mean_replicate pos]

theorem isNaN_mean_replicate {c : Float} (finite : c.isFinite = true) (room : n ≤ 2 ^ 60) :
    (mean (List.replicate n c)).isNaN = false := by
  have total : (sum (List.replicate n c)).isNaN = false :=
    isNaN_sum fun x mem => (List.eq_of_mem_replicate mem) ▸ finite
  rw [mean_replicate pos]
  exact ((stands_worth total).div (stands_worth (stands_toFloat n).number) (worth_toFloat_pos pos).ne'
    (.inr (isFinite_toFloat room))).number

/-! ### Variances -/

variable {q : Float}

/-- The mean of vanishing squares vanishes, and so does its root. -/
theorem stands_spread_zero (hq : Stands q 0) : Stands (sum (List.replicate n q) / n.toFloat).sqrt 0 := by
  have total := stands_sum_replicate (r := 0) hq (repeats_zero n)
  rw [EReal.coe_zero, mul_zero] at total
  have variance := total.div (stands_worth (stands_toFloat n).number) (worth_toFloat_pos pos).ne'
    (.inl (total.isFinite (r := 0)))
  rw [EReal.zero_div, rounded_zero] at variance
  have root := variance.sqrt (r := 0) le_rfl
  rwa [Real.sqrt_zero, EReal.coe_zero, rounded_zero] at root

theorem exists_stands_variance (number : q.isNaN = false) (nonneg : 0 ≤ worth q) (room : n ≤ 2 ^ 60) :
    ∃ v, Stands (sum (List.replicate n q) / n.toFloat) v ∧ 0 ≤ v := by
  obtain ⟨total_number, total⟩ := le_sum (b := 0) le_rfl (repeats_zero _) fun x mem =>
    (List.eq_of_mem_replicate mem) ▸ ⟨number, nonneg⟩
  rw [EReal.coe_zero, mul_zero] at total
  have count := worth_toFloat_pos pos
  have variance := (stands_worth total_number).div (stands_worth (stands_toFloat n).number) count.ne'
    (.inr (isFinite_toFloat room))
  exact ⟨_, variance, rounded_nonneg (EReal.div_nonneg total count.le)⟩

/-- Squares that do not vanish have a mean that does not. -/
theorem least_le_variance (number : q.isNaN = false) (square_pos : 0 < worth q) (few : n ≤ 2 ^ 53) :
    ((2 ^ (-1074 : ℤ) : ℝ) : EReal) ≤ worth (sum (List.replicate n q) / n.toFloat) := by
  have repeats : Repeats ((2 ^ (-1074 : ℤ) : ℝ) : EReal) (List.replicate n q).length := by
    rw [List.length_replicate]
    simpa using repeats_intCast_mul (m := 1) (e := -1074) le_rfl (by norm_num) (n := n) (by norm_num; omega)
  obtain ⟨total_number, total⟩ := le_sum (two_zpow_pos _).le repeats fun x mem =>
    (List.eq_of_mem_replicate mem) ▸ ⟨number, least_le_worth number square_pos⟩
  rw [List.length_replicate] at total
  have count := stands_count few
  have pos' : (0 : EReal) < n := by exact_mod_cast pos
  have variance := (stands_worth total_number).div count pos'.ne' (.inr (count.isFinite (r := n)))
  rw [variance.worth_eq]
  refine (rounded_two_zpow le_rfl (by norm_num)).symm.trans_le (rounded_mono ?_)
  rw [EReal.le_div_iff_mul_le pos' (EReal.natCast_ne_top n), mul_comm]
  exact total

end Copies

/-! ## Scores -/

theorem eq_zero_of_beq {x : Float} (h : (x == 0.0) = true) : Stands x 0 := by
  have number := isNaN_of_beq h
  exact ⟨number, (beq_iff_worth number stands_zero.number).1 h⟩

/-- The least quotient of a distance that has a square by a deviation that is finite. -/
theorem rounded_div_ne_zero {r s : ℝ} (large : 2 ^ (-538 : ℤ) ≤ |r|) (pos : 0 < s) (small : s ≤ 2 ^ (512 : ℤ)) :
    rounded ((r : EReal) / s) ≠ 0 := by
  rw [← EReal.coe_div]
  apply rounded_ne_zero
  rw [abs_div, abs_of_pos pos, le_div_iff₀ pos]
  calc (2 : ℝ) ^ (-1074 : ℤ) * s ≤ 2 ^ (-1074 : ℤ) * 2 ^ (512 : ℤ) :=
        mul_le_mul_of_nonneg_left small (two_zpow_pos _).le
    _ = 2 ^ (-562 : ℤ) := by rw [← two_zpow_add]; norm_num
    _ ≤ 2 ^ (-538 : ℤ) := two_zpow_le (by norm_num)
    _ ≤ |r| := large

/-- The distance of a value from the mean of its copies. -/
theorem stands_distance {n : ℕ} {c : Float} (finite : c.isFinite = true)
    (number : (mean (List.replicate n c)).isNaN = false) :
    Stands (c - mean (List.replicate n c)) (rounded (worth c - worth (mean (List.replicate n c)))) := by
  obtain ⟨r, stands, -⟩ := exists_stands_of_isFinite finite
  rw [stands.worth_eq]
  exact stands.sub (stands_worth number) (.inl (EReal.coe_ne_top r)) (.inl (EReal.coe_ne_bot r))

section Score

variable {n : ℕ} (pos : 0 < n) {c : Float} (finite : c.isFinite = true)
include pos finite

/-- If the mean is the value there is no deviation. -/
theorem zScoreOf_replicate_of_mean (same : (mean (List.replicate n c) == c) = true) :
    zScoreOf (List.replicate n c) c = 0.0 := by
  have number := isNaN_of_beq same
  have distance := stands_distance finite number
  obtain ⟨r, stands, -⟩ := exists_stands_of_isFinite finite
  rw [(beq_iff_worth number stands.number).1 same, stands.worth_eq, ← EReal.coe_sub, sub_self, EReal.coe_zero,
    rounded_zero] at distance
  have square := distance.square
  rw [mul_zero, rounded_zero] at square
  have spread := stands_spread_zero pos square
  rw [← deviation_replicate pos] at spread
  exact if_pos ((spread.beq_iff stands_zero).2 rfl)

/-- The deviation vanishes just if the squared distance does. -/
theorem deviation_replicate_beq_zero (few : n ≤ 2 ^ 53) :
    let distance := c - mean (List.replicate n c)
    (deviation (List.replicate n c) == 0.0) = true ↔ (distance * distance == 0.0) = true := by
  intro distance
  have room : n ≤ 2 ^ 60 := few.trans (by norm_num)
  have square := (stands_distance finite (isNaN_mean_replicate pos finite room)).square
  have nonneg := square.worth_eq ▸ rounded_nonneg (square_nonneg _)
  rw [deviation_replicate pos]
  constructor
  · intro none
    by_contra some_square
    have square_pos : 0 < worth (distance * distance) := by
      refine lt_of_le_of_ne nonneg fun zero => some_square ?_
      exact (beq_iff_worth square.number stands_zero.number).2 (zero.symm.trans stands_zero.worth_eq.symm)
    obtain ⟨v, variance, variance_nonneg⟩ := exists_stands_variance pos square.number nonneg room
    have least := least_le_variance pos square.number square_pos few
    rw [variance.worth_eq] at least
    exact (worth_sqrt_pos variance variance_nonneg least).ne' (eq_zero_of_beq none).worth_eq
  · intro vanishes
    exact ((stands_spread_zero pos (eq_zero_of_beq vanishes)).beq_iff stands_zero).2 rfl

/-- **A score among copies is zero just if there is no deviation, or too much for a float.** -/
theorem zScoreOf_replicate_beq_zero (room : n ≤ 2 ^ 60) :
    (zScoreOf (List.replicate n c) c == 0.0) = true ↔ (deviation (List.replicate n c) == 0.0) = true ∨
      ((c - mean (List.replicate n c)).isFinite = true ∧ (deviation (List.replicate n c)).isFinite = false) := by
  have distance := stands_distance finite (isNaN_mean_replicate pos finite room)
  have square := distance.square
  obtain ⟨v, variance, variance_nonneg⟩ := exists_stands_variance pos square.number
    (square.worth_eq ▸ rounded_nonneg (square_nonneg _)) room
  obtain ⟨s, spread, nonneg, small⟩ := exists_stands_sqrt variance variance_nonneg
  rw [← deviation_replicate pos] at spread
  unfold zScoreOf
  dsimp only
  by_cases none : (deviation (List.replicate n c) == 0.0) = true
  · rw [if_pos none]
    exact iff_of_true rfl (.inl none)
  rw [if_neg none, or_iff_right none]
  have pos' : 0 < s :=
    lt_of_le_of_ne nonneg fun zero => none ((spread.beq_iff stands_zero).2 zero.symm)
  have some_square : rounded (rounded (worth c - worth (mean (List.replicate n c)))
      * rounded (worth c - worth (mean (List.replicate n c)))) ≠ 0 := by
    intro vanishes
    have flat := stands_spread_zero pos (vanishes ▸ square)
    rw [← deviation_replicate pos] at flat
    exact none ((flat.beq_iff stands_zero).2 rfl)
  generalize rounded (worth c - worth (mean (List.replicate n c))) = d at distance some_square
  generalize c - mean (List.replicate n c) = x at distance ⊢
  cases bounded : (deviation (List.replicate n c)).isFinite with
  | true =>
    have not_top : s ≠ ⊤ := (spread.isFinite_iff_of_nonneg nonneg).1 bounded
    obtain ⟨t, rfl, -, -⟩ := exists_real_of_ne_top spread nonneg not_top
    have quotient := distance.div spread pos'.ne' (.inr bounded)
    rw [quotient.beq_iff stands_zero]
    refine iff_of_false ?_ (fun shown => Bool.false_ne_true shown.2.symm)
    induction d with
    | bot => simp [EReal.bot_div_of_pos_ne_top pos' not_top]
    | top => simp [EReal.top_div_of_pos_ne_top pos' not_top]
    | coe r =>
      exact rounded_div_ne_zero (le_abs_of_square some_square) (EReal.coe_pos.1 pos')
        (EReal.coe_le_coe_iff.1 (small not_top))
  | false =>
    have top : s = ⊤ := by
      by_contra not_top
      exact Bool.false_ne_true (bounded.symm.trans ((spread.isFinite_iff_of_nonneg nonneg).2 not_top))
    rw [and_iff_left rfl]
    constructor
    · intro zero
      -- An infinite distance by an infinite deviation is no number.
      refine (finite_of_div (eq_zero_of_beq zero).number).resolve_right ?_
      rw [bounded]
      exact Bool.false_ne_true
    · intro near
      have quotient := distance.div spread pos'.ne' (.inl near)
      rw [top, EReal.div_top, rounded_zero] at quotient
      exact (quotient.beq_iff stands_zero).2 rfl

end Score

namespace Oscillator

/-- **What a flat window scores.** Behind any earlier inputs as many equal finite ones as the window holds are
answered with a score that is zero if their mean is equal to them. That is so if the sums of them are exact. In
general the score is zero just if the deviation is, or is too great for a float while the distance from the mean
is not; and the deviation is zero just if the square of that distance is. -/
theorem feed_flat (window : ℕ) (earlier : List Float) {c : Float} (finite : c.isFinite = true) :
    let n := max window 2
    let flat := List.replicate n c
    let distance := c - mean flat
    let score := zScoreOf flat c
    (feed push (new (.zScore window)) (earlier ++ flat)).2 = some (score, none) ∧
    ((mean flat == c) = true → score = 0.0) ∧
    (window ≤ Ring.greatestCapacity → ((score == 0.0) = true ↔
      (deviation flat == 0.0) = true ∨ (distance.isFinite = true ∧ (deviation flat).isFinite = false))) ∧
    (n ≤ 2 ^ 53 → ((deviation flat == 0.0) = true ↔ (distance * distance == 0.0) = true)) ∧
    (n ≤ 2 ^ 53 → ∀ m e : ℤ, worth c = ((m * 2 ^ e : ℝ) : EReal) → n * |m| ≤ 2 ^ 53 → -1074 ≤ e → e ≤ 970 →
      score = 0.0) := by
  intro n flat distance score
  have pos : 0 < n := by omega
  refine ⟨?_, zScoreOf_replicate_of_mean pos finite, ?_, deviation_replicate_beq_zero pos finite, ?_⟩
  · rw [feed_new_zScore, measured?_append _ earlier List.length_replicate.ge pos, measured?,
      if_pos List.length_replicate.ge, rtake_of_length_le List.length_replicate.le, List.getLast?_replicate,
      if_neg pos.ne']
    rfl
  · intro room
    apply zScoreOf_replicate_beq_zero pos finite
    rw [Ring.greatestCapacity, signedLimit] at room
    omega
  · intro few m e value small least most
    have stands : Stands c ((m * 2 ^ e : ℝ) : EReal) := ⟨isNaN_of_isFinite finite, value⟩
    have mean := stands_mean_replicate pos stands few (repeats_intCast_mul least most small)
    exact zScoreOf_replicate_of_mean pos finite ((mean.beq_iff stands).2 rfl)

/-- Three tenths are not summed up exactly, and one tenth scores minus one among them. Four sevens are, whatever
came before them. -/
theorem feed_flat_tenths :
    let tenths := List.replicate 3 (0.1 : Float)
    let sevens := List.replicate 4 (7.0 : Float)
    (0.1 : Float).isFinite = true ∧ (7.0 : Float).isFinite = true ∧
      (feed push (new (.zScore 3)) ([7.0] ++ tenths)).2 = some (-1.0, none) ∧
      (zScoreOf tenths 0.1 == 0.0) = false ∧ (mean tenths == 0.1) = false ∧
      (feed push (new (.zScore 4)) ([0.1, 0.0 / 0.0] ++ sevens)).2 = some (0.0, none) := by
  intro tenths sevens
  have finite : (0.1 : Float).isFinite = true := rfl
  have finite' : (7.0 : Float).isFinite = true := rfl
  obtain ⟨answered, exact_mean, -, -, -⟩ := feed_flat 3 [7.0] finite
  obtain ⟨answered', -, -, -, exact_sums⟩ := feed_flat 4 [0.1, 0.0 / 0.0] finite'
  have score : zScoreOf tenths 0.1 = -1.0 := by decide +kernel
  have some_score : (zScoreOf tenths 0.1 == 0.0) = false := by
    rw [score]
    rfl
  have seven : worth 7.0 = (((7 : ℤ) * 2 ^ (0 : ℤ) : ℝ) : EReal) := by
    have stands := stands_literal (x := 7.0) (m := 7 * 2 ^ 50) (e := -50) (by norm_num) (by norm_num)
      (by norm_num) rfl
    rw [stands.worth_eq]
    norm_num
  refine ⟨finite, finite', answered.trans (congrArg (fun value => some (value, none)) score), some_score, ?_,
    answered'.trans (congrArg (fun value => some (value, none)) ?_)⟩
  · rw [← Bool.not_eq_true]
    intro same
    rw [show zScoreOf tenths 0.1 = 0.0 from exact_mean same] at score
    revert score
    decide +kernel
  · exact exact_sums (by norm_num) 7 0 seven (by norm_num) (by norm_num) (by norm_num)

end Oscillator

end FxPulse
