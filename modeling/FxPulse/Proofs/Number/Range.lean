import FxPulse.Proofs.Number.Arithmetic

/-!
# `Proofs/Number/Range.lean` — where rounding makes something of nothing, and nothing of something

Bounds that are floats survive rounding. Strict ones do not: a number just below the first power of two that
has no float is rounded up to it, and a number just above zero down to zero. Where that happens is known
exactly, and next to one it does not happen to a quotient at all:

> a result is infinite from half a place above the greatest float on (`rounded_eq_top_iff`), and positive from
> more than half the least float on (`rounded_pos_iff`); a quotient of two floats is less than one if it is so
> before rounding (`rounded_div_lt_one_iff`).

Two numbers that are further apart than a place of the greater one are not rounded to the same float.
-/

set_option autoImplicit false

namespace FxPulse.Number

/-! ## Half a place -/

theorem abs_nearestWhole_sub_le {x : ℝ} (nonneg : 0 ≤ x) : |(nearestWhole x : ℝ) - x| ≤ 1 / 2 := by
  have below := Nat.floor_le nonneg
  have above := Nat.lt_floor_add_one x
  unfold nearestWhole
  split
  · rename_i down
    have half : x - ⌊x⌋₊ ≤ 1 / 2 := down.elim le_of_lt fun tie => tie.1.le
    rw [abs_le]
    constructor <;> linarith
  · rename_i up
    have half : 1 / 2 ≤ x - ⌊x⌋₊ := not_lt.1 fun less => up (.inl less)
    rw [abs_le]
    push_cast
    constructor <;> linarith

/-- What lies in the middle goes to the even side. -/
theorem nearestWhole_half (n : ℕ) : nearestWhole (n + 1 / 2) = n + n % 2 := by
  have floor : ⌊(n : ℝ) + 1 / 2⌋₊ = n := by
    rw [Nat.floor_eq_iff (by positivity)]
    constructor <;> linarith
  rw [nearestWhole, floor, add_sub_cancel_left]
  rcases Nat.mod_two_eq_zero_or_one n with even | odd
  · rw [if_pos (.inr ⟨rfl, even⟩), even, add_zero]
  · rw [if_neg (by simp [odd]), odd]

theorem abs_nearest_sub_le {x : ℝ} (nonneg : 0 ≤ x) : |nearest x - x| ≤ 1 / 2 * 2 ^ place x := by
  have positive := two_zpow_pos (place x)
  have whole := abs_nearestWhole_sub_le (div_nonneg nonneg positive.le)
  have scaled : nearest x - x = (nearestWhole (x / 2 ^ place x) - x / 2 ^ place x) * 2 ^ place x := by
    rw [nearest_of_nonneg nonneg, nearestMagnitude, sub_mul, div_mul_cancel₀ _ positive.ne']
  rw [scaled, abs_mul, abs_of_pos positive]
  exact mul_le_mul_of_nonneg_right whole positive.le

/-- Numbers that are further apart than a place of the greater one are rounded to different floats. -/
theorem nearest_lt_nearest {x y : ℝ} (pos : 0 < x) (apart : x + 2 ^ place y < y) : nearest x < nearest y := by
  have places := two_zpow_le (place_mono pos (show x ≤ y by linarith [two_zpow_pos (place y)]))
  have first := (abs_le.1 (abs_nearest_sub_le pos.le)).2
  have second := (abs_le.1 (abs_nearest_sub_le (pos.le.trans (by linarith [two_zpow_pos (place y)] : x ≤ y)))).1
  linarith

/-- Twice what is added to the lesser of two numbers keeps the sums apart, if it is no tiny part of them. -/
theorem nearest_add_lt_nearest_add_two_mul {a s n : ℝ} (least : 2 ^ (-51 : ℤ) ≤ a) (nonneg : 0 ≤ s)
    (h : s ≤ n) (part : n ≤ 2 ^ 51 * a) : nearest (s + a) < nearest (n + 2 * a) := by
  have pos : 0 < a := (two_zpow_pos _).trans_le least
  have positive : 0 < n + 2 * a := by linarith
  have fine : 2 ^ place (n + 2 * a) < a := by
    rcases eq_or_lt_of_le (neg_1074_le_place (n + 2 * a)) with last | coarse
    · rw [← last]
      exact (zpow_lt_zpow_right₀ one_lt_two (by norm_num)).trans_le least
    · have below := two_zpow_place_le positive coarse
      rw [two_zpow_add] at below
      norm_num at below part
      linarith
  refine nearest_lt_nearest (by linarith) ?_
  linarith

/-! ## Floats below a float -/

theorem Fits.two_pow_mul {x : ℝ} (h : Fits x) (n : ℕ) : Fits (2 ^ n * x) := by
  obtain ⟨m, e, few, least, rfl⟩ := h
  refine ⟨m, e + n, few, by omega, ?_⟩
  rw [two_zpow_add, zpow_natCast]
  ring

theorem Fits.double {x : ℝ} (h : Fits x) : Fits (2 * x) := by simpa using h.two_pow_mul 1

/-- A multiple of a power of two is one of a smaller power. -/
theorem intCast_mul_two_zpow_add (k e : ℤ) (d : ℕ) :
    (k : ℝ) * 2 ^ (e + d : ℤ) = ((k * 2 ^ d : ℤ) : ℝ) * 2 ^ e := by
  rw [two_zpow_add, zpow_natCast]
  push_cast
  ring

/-- A float is further from the floats below it than its part in `2 ^ 53`. -/
theorem Fits.le_mul_sub {x y : ℝ} (hx : Fits x) (hy : Fits y) (nonneg : 0 ≤ x) (h : x < y) :
    y ≤ 2 ^ 53 * (y - x) := by
  obtain ⟨k, f, few, -, rfl⟩ := hx
  obtain ⟨m, e, few', -, rfl⟩ := hy
  have few := (abs_le.1 few).2
  have few' := (abs_le.1 few').2
  -- Both are multiples of the finer one of the two last places.
  rcases le_total e f with fine | fine
  · obtain ⟨d, rfl⟩ : ∃ d : ℕ, f = e + d := ⟨(f - e).toNat, by omega⟩
    rw [intCast_mul_two_zpow_add] at nonneg h ⊢
    have less : k * 2 ^ d < m := by exact_mod_cast (mul_lt_mul_iff_left₀ (two_zpow_pos e)).1 h
    have part : m ≤ 2 ^ 53 * (m - k * 2 ^ d) := by omega
    rw [← sub_mul, ← mul_assoc]
    exact mul_le_mul_of_nonneg_right (by exact_mod_cast part) (two_zpow_pos e).le
  · obtain ⟨d, rfl⟩ : ∃ d : ℕ, e = f + d := ⟨(e - f).toNat, by omega⟩
    rw [intCast_mul_two_zpow_add] at h ⊢
    have less : k < m * 2 ^ d := by exact_mod_cast (mul_lt_mul_iff_left₀ (two_zpow_pos f)).1 h
    -- One more than all places is odd, so it is no multiple of a coarser place.
    have part : m * 2 ^ d ≤ 2 ^ 53 * (m * 2 ^ d - k) := by
      rcases Nat.eq_zero_or_pos d with rfl | coarser
      · omega
      · obtain ⟨n, rfl⟩ : ∃ n, d = n + 1 := ⟨d - 1, by omega⟩
        rw [pow_succ, ← mul_assoc] at less ⊢
        omega
    rw [← sub_mul, ← mul_assoc]
    exact mul_le_mul_of_nonneg_right (by exact_mod_cast part) (two_zpow_pos f).le

/-! ## Overflow -/

theorem overflow_pos : 0 < overflow := mul_pos (by norm_num) (two_zpow_pos _)

theorem place_overflow : place overflow = 971 := by
  have log : Int.log 2 overflow = 1023 := by
    rw [overflow, log_mul_two_zpow (by norm_num), Int.log_of_one_le_right _ (by norm_num)]
    have floor : ⌊(2 ^ 53 - 1 / 2 : ℝ)⌋₊ = 2 ^ 53 - 1 := by
      rw [Nat.floor_eq_iff (by norm_num)]
      norm_num
    rw [floor, (Nat.log_eq_iff (by norm_num)).2 (show 2 ^ 52 ≤ 2 ^ 53 - 1 ∧ 2 ^ 53 - 1 < 2 ^ (52 + 1) by norm_num)]
    norm_num
  rw [place, log]
  norm_num

theorem nearest_overflow : nearest overflow = limit := by
  have middle : overflow / 2 ^ place overflow = ((2 ^ 53 - 1 : ℕ) : ℝ) + 1 / 2 := by
    rw [place_overflow, overflow, mul_div_cancel_right₀ _ (two_zpow_pos _).ne']
    norm_num
  rw [nearest_of_nonneg overflow_pos.le, nearestMagnitude, middle, nearestWhole_half, place_overflow, limit_eq]
  norm_num

theorem nearest_lt_limit {x : ℝ} (h : x < overflow) : nearest x < limit := by
  -- The greatest float is half a place below, so a number above it is rounded at the last place there is.
  rcases le_or_gt x ((2 ^ 53 - 1 : ℕ) * 2 ^ (971 : ℤ)) with small | large
  · have fits := fits_natCast_mul (m := 2 ^ 53 - 1) (by norm_num) (e := 971) (by norm_num)
    refine ((nearest_mono small).trans_eq (nearest_of_fits fits)).trans_lt ?_
    rw [limit_eq]
    exact mul_lt_mul_of_pos_right (by norm_num) (two_zpow_pos _)
  · have pos : 0 < x := lt_trans (by positivity) large
    have last := (place_mono pos h.le).trans_eq place_overflow
    have error := (abs_le.1 (abs_nearest_sub_le pos.le)).2
    have place_le := two_zpow_le last
    rw [limit_eq]
    rw [overflow] at h
    linarith

theorem bounded_eq_top_iff {x : ℝ} : bounded x = ⊤ ↔ limit ≤ x := by
  unfold bounded
  split_ifs with above below
  · exact iff_of_true rfl above
  · exact iff_of_false bot_ne_top above
  · exact iff_of_false (EReal.coe_ne_top x) above

/-- A finite result is the nearest float. -/
theorem nearest_eq_of_rounded {x r : ℝ} (h : rounded x = r) : nearest x = r := by
  rw [rounded_coe, bounded] at h
  split_ifs at h with above below
  · exact absurd h.symm (EReal.coe_ne_top r)
  · exact absurd h.symm (EReal.coe_ne_bot r)
  · exact EReal.coe_eq_coe_iff.1 h

/-- **A result is infinite from half a place above the greatest float on.** -/
theorem rounded_eq_top_iff {x : ℝ} : rounded x = ⊤ ↔ overflow ≤ x := by
  rw [rounded_coe, bounded_eq_top_iff]
  constructor
  · intro great
    by_contra! less
    exact (great.trans_lt (nearest_lt_limit less)).false
  · intro great
    exact nearest_overflow.symm.trans_le (nearest_mono great)

/-- The result of an operation whose exact result is not negative is finite just below there. -/
theorem Stands.isFinite_iff_lt_overflow {x : Float} {r : ℝ} (hx : Stands x (rounded r)) (nonneg : 0 ≤ r) :
    x.isFinite = true ↔ r < overflow := by
  rw [hx.isFinite_iff_of_nonneg (rounded_nonneg (EReal.coe_nonneg.2 nonneg)), ne_eq, rounded_eq_top_iff, not_le]

/-- Half a place beyond a float there is no overflow. -/
theorem Fits.add_lt_overflow {x y : ℝ} (hx : Fits x) (nonneg : 0 ≤ x) (small : x < limit)
    (less : y < 2 ^ (970 : ℤ)) : x + y < overflow := by
  have top : Fits limit := fits_two_zpow (by norm_num)
  have part := hx.le_mul_sub top nonneg small
  have half : (2 : ℝ) ^ (971 : ℤ) = 2 * 2 ^ (970 : ℤ) := by
    rw [show (971 : ℤ) = 1 + 970 by norm_num, two_zpow_add, zpow_one]
  rw [limit_eq] at part
  rw [overflow]
  generalize (2 : ℝ) ^ (971 : ℤ) = unit at part half ⊢
  linarith

/-! ## Underflow -/

theorem rounded_half_least : rounded ((2 ^ (-1075 : ℤ) : ℝ) : EReal) = 0 := by
  have log : Int.log 2 (2 ^ (-1075 : ℤ) : ℝ) = -1075 := by
    exact_mod_cast Int.log_zpow (R := ℝ) (b := 2) one_lt_two (-1075)
  have last : place (2 ^ (-1075 : ℤ)) = -1074 := by
    rw [place, log]
    norm_num
  have middle : (2 : ℝ) ^ (-1075 : ℤ) / 2 ^ (-1074 : ℤ) = ((0 : ℕ) : ℝ) + 1 / 2 := by
    rw [← zpow_sub₀ two_ne_zero]
    norm_num
  have nothing : nearest (2 ^ (-1075 : ℤ)) = 0 := by
    rw [nearest_of_nonneg (two_zpow_pos _).le, nearestMagnitude, last, middle, nearestWhole_half]
    norm_num
  rw [rounded_coe, nothing, bounded_of_lt (abs_zero.trans_lt limit_pos), EReal.coe_zero]

/-- **A result is positive from more than half the least float on.** -/
theorem rounded_pos_iff {x : ℝ} : 0 < rounded x ↔ 2 ^ (-1075 : ℤ) < x := by
  constructor
  · contrapose!
    intro small
    exact (rounded_mono (EReal.coe_le_coe_iff.2 small)).trans_eq rounded_half_least
  · intro more
    have pos : 0 < x := (two_zpow_pos _).trans more
    rcases le_or_gt (2 ^ (-1074 : ℤ)) x with large | small
    · refine lt_of_le_of_ne (rounded_nonneg (EReal.coe_nonneg.2 pos.le)) (rounded_ne_zero ?_).symm
      rwa [abs_of_pos pos]
    · -- Below the least float the last place is the least one, and half of it is not all there is.
      have last : place x = -1074 := by
        refine le_antisymm ((place_mono pos small.le).trans ?_) (neg_1074_le_place x)
        simpa using place_le_of_lt (m := 1) one_pos (by norm_num) (e := -1074) le_rfl
      have error := (abs_le.1 (abs_nearest_sub_le pos.le)).1
      have half : (1 / 2 : ℝ) * 2 ^ place x = 2 ^ (-1075 : ℤ) := by
        rw [last, show (-1074 : ℤ) = 1 + -1075 by norm_num, two_zpow_add, zpow_one]
        ring
      have some_place : 0 < nearest x := by linarith
      rw [rounded_coe, bounded]
      split_ifs with above below
      · exact EReal.zero_lt_top
      · linarith [limit_pos]
      · exact EReal.coe_pos.2 some_place

/-! ## Quotients next to one -/

section Quotient

variable {x y : ℝ} (pos : 0 < y)
include pos

theorem rounded_div_pos_iff : 0 < rounded ((x : EReal) / y) ↔ 2 ^ (-1075 : ℤ) * y < x := by
  rw [← EReal.coe_div, rounded_pos_iff, lt_div_iff₀ pos]

/-- **A quotient of floats is less than one if it is so before rounding.** -/
theorem rounded_div_lt_one_iff (hx : Fits x) (hy : Fits y) (nonneg : 0 ≤ x) :
    rounded ((x : EReal) / y) < 1 ↔ x < y := by
  rw [← EReal.coe_div]
  constructor
  · contrapose!
    intro great
    have one : rounded 1 = 1 := stands_one.rounded_eq
    refine one.symm.trans_le (rounded_mono ?_)
    exact_mod_cast (one_le_div pos).2 great
  · intro less
    have part := hx.le_mul_sub hy nonneg less
    have below : x / y ≤ (2 ^ 53 - 1 : ℕ) * 2 ^ (-53 : ℤ) := by
      rw [div_le_iff₀ pos]
      norm_num
      linarith
    have fits := fits_natCast_mul (m := 2 ^ 53 - 1) (by norm_num) (e := -53) (by norm_num)
    have fixed := rounded_of_fits fits (by
      refine lt_of_le_of_lt (b := 1) (by norm_num) ?_
      exact one_lt_zpow₀ one_lt_two (by norm_num))
    refine ((rounded_mono (EReal.coe_le_coe_iff.2 below)).trans_eq fixed).trans_lt ?_
    exact_mod_cast (show ((2 ^ 53 - 1 : ℕ) : ℝ) * 2 ^ (-53 : ℤ) < 1 by norm_num)

end Quotient

end FxPulse.Number
