import Mathlib

/-!
# `Proofs/Number/Nearest.lean` — the number that a result is rounded to

The result of an operation on floats is the exact result, rounded: to a multiple of a power of two that leaves
a significand of 53 places, and beyond the greatest float to an infinity. Here this is a function of real
numbers. Two things about it carry every bound on a computed value:

> it is monotone (`nearest_mono`, `rounded_mono`), and it leaves every number alone that has a float
> (`nearest_of_fits`);

so what lies between two floats still does when it has been rounded (`rounded_mem_Icc`). How far a result moves
is never asked.
-/

set_option autoImplicit false

namespace FxPulse.Number

/-! ## Whole numbers -/

/-- The whole number nearest to a number that is not negative, and of two that are equally near the even one. -/
noncomputable def nearestWhole (x : ℝ) : ℕ :=
  if x - ⌊x⌋₊ < 1 / 2 ∨ (x - ⌊x⌋₊ = 1 / 2 ∧ ⌊x⌋₊ % 2 = 0) then ⌊x⌋₊ else ⌊x⌋₊ + 1

theorem floor_le_nearestWhole (x : ℝ) : ⌊x⌋₊ ≤ nearestWhole x := by
  unfold nearestWhole
  split <;> omega

theorem nearestWhole_le_floor (x : ℝ) : nearestWhole x ≤ ⌊x⌋₊ + 1 := by
  unfold nearestWhole
  split <;> omega

theorem nearestWhole_natCast (n : ℕ) : nearestWhole n = n := by
  rw [nearestWhole, Nat.floor_natCast, sub_self, if_pos (.inl (by norm_num))]

theorem nearestWhole_mono {x y : ℝ} (h : x ≤ y) : nearestWhole x ≤ nearestWhole y := by
  rcases (Nat.floor_le_floor h).lt_or_eq with below | same
  · exact (nearestWhole_le_floor x).trans (below.trans_le (floor_le_nearestWhole y))
  · unfold nearestWhole
    rw [← same]
    split
    · split <;> omega
    · rename_i up
      rw [if_neg]
      rintro (less | ⟨half, even⟩)
      · exact up (.inl (by linarith))
      · rcases (show x - ⌊x⌋₊ ≤ 1 / 2 by linarith).lt_or_eq with less | eq
        · exact up (.inl less)
        · exact up (.inr ⟨eq, even⟩)

/-! ## Magnitudes -/

/-- The exponent of the last place of a number's significand, which has 53 places unless that takes an
exponent below the least one. -/
noncomputable def place (x : ℝ) : ℤ := max (Int.log 2 x - 52) (-1074)

/-- The nearest multiple of the last place of a number that is not negative. -/
noncomputable def nearestMagnitude (x : ℝ) : ℝ := nearestWhole (x / 2 ^ place x) * 2 ^ place x

/-- The nearest number with a significand of 53 places. -/
noncomputable def nearest (x : ℝ) : ℝ := if x < 0 then -nearestMagnitude (-x) else nearestMagnitude x

/-- A significand and an exponent, as a number. -/
noncomputable def scaled (m e : ℤ) : ℝ := m * 2 ^ e

/-- The number is a significand of 53 places times a power of two. -/
def Fits (x : ℝ) : Prop := ∃ (m : ℤ) (e : ℤ), |m| ≤ 2 ^ 53 ∧ -1074 ≤ e ∧ x = m * 2 ^ e

theorem two_zpow_pos (e : ℤ) : (0 : ℝ) < 2 ^ e := zpow_pos two_pos e

theorem two_zpow_add (a b : ℤ) : (2 : ℝ) ^ (a + b) = 2 ^ a * 2 ^ b := zpow_add₀ two_ne_zero a b

theorem two_zpow_le {a b : ℤ} (h : a ≤ b) : (2 : ℝ) ^ a ≤ 2 ^ b := zpow_le_zpow_right₀ one_le_two h

theorem neg_1074_le_place (x : ℝ) : -1074 ≤ place x := le_max_right _ _

theorem nearestMagnitude_nonneg (x : ℝ) : 0 ≤ nearestMagnitude x :=
  mul_nonneg (Nat.cast_nonneg _) (two_zpow_pos _).le

theorem place_mono {x y : ℝ} (pos : 0 < x) (h : x ≤ y) : place x ≤ place y :=
  max_le_max_right _ (Int.sub_le_sub_right (Int.log_mono_right pos h) 52)

/-- A number is less than one place more than its significand can have. -/
theorem lt_two_zpow_place (x : ℝ) : x < 2 ^ (place x + 53) :=
  (Int.lt_zpow_succ_log_self (b := 2) one_lt_two x).trans_le
    (by exact_mod_cast two_zpow_le (show Int.log 2 x + 1 ≤ place x + 53 by unfold place; omega))

/-- Its significand has all its places, or its last place is the least. -/
theorem two_zpow_place_le {x : ℝ} (pos : 0 < x) (h : -1074 < place x) : 2 ^ (place x + 52) ≤ x := by
  have all : place x + 52 = Int.log 2 x := by
    unfold place at h ⊢
    omega
  rw [all]
  exact_mod_cast Int.zpow_log_le_self (b := 2) one_lt_two pos

theorem nearestWhole_le {x : ℝ} : nearestWhole (x / 2 ^ place x) ≤ 2 ^ 53 := by
  have small : x / 2 ^ place x ≤ ((2 ^ 53 : ℕ) : ℝ) := by
    rw [div_le_iff₀ (two_zpow_pos _)]
    refine (lt_two_zpow_place x).le.trans_eq ?_
    rw [add_comm, two_zpow_add]
    norm_num
  exact (nearestWhole_mono small).trans_eq (nearestWhole_natCast _)

theorem le_nearestWhole {x : ℝ} (pos : 0 < x) (h : -1074 < place x) :
    2 ^ 52 ≤ nearestWhole (x / 2 ^ place x) := by
  have large : ((2 ^ 52 : ℕ) : ℝ) ≤ x / 2 ^ place x := by
    rw [le_div_iff₀ (two_zpow_pos _)]
    refine Eq.trans_le ?_ (two_zpow_place_le pos h)
    rw [add_comm, two_zpow_add]
    norm_num
  exact (nearestWhole_natCast _).symm.trans_le (nearestWhole_mono large)

theorem nearestMagnitude_mono {x y : ℝ} (pos : 0 < x) (h : x ≤ y) :
    nearestMagnitude x ≤ nearestMagnitude y := by
  rcases (place_mono pos h).lt_or_eq with below | same
  · -- The one significand does not outgrow its places, and the other one fills them.
    have full := le_nearestWhole (pos.trans_le h) ((neg_1074_le_place x).trans_lt below)
    calc nearestMagnitude x ≤ ((2 ^ 53 : ℕ) : ℝ) * 2 ^ place x :=
          mul_le_mul_of_nonneg_right (Nat.cast_le.2 nearestWhole_le) (two_zpow_pos _).le
      _ = 2 ^ 52 * 2 ^ (place x + 1) := by rw [two_zpow_add]; norm_num; ring
      _ ≤ 2 ^ 52 * 2 ^ place y := by
          exact mul_le_mul_of_nonneg_left (two_zpow_le (by omega)) (by positivity)
      _ ≤ nearestMagnitude y := by
          exact mul_le_mul_of_nonneg_right (by exact_mod_cast full) (two_zpow_pos _).le
  · unfold nearestMagnitude
    rw [← same]
    refine mul_le_mul_of_nonneg_right (Nat.cast_le.2 (nearestWhole_mono ?_)) (two_zpow_pos _).le
    exact div_le_div_of_nonneg_right h (two_zpow_pos _).le

/-- A multiple of a power of two that is not below the last place is left alone. -/
theorem nearestMagnitude_of_place_le {m : ℕ} {e : ℤ} (fine : place (m * 2 ^ e) ≤ e) :
    nearestMagnitude (m * 2 ^ e) = m * 2 ^ e := by
  unfold nearestMagnitude
  generalize place (m * 2 ^ e) = p at fine ⊢
  obtain ⟨k, rfl⟩ : ∃ k : ℕ, e = p + k := ⟨(e - p).toNat, by omega⟩
  have whole : (m : ℝ) * 2 ^ (p + k : ℤ) / 2 ^ p = ((m * 2 ^ k : ℕ) : ℝ) := by
    rw [two_zpow_add, zpow_natCast]
    have := (two_zpow_pos p).ne'
    push_cast
    field_simp
  rw [whole, nearestWhole_natCast, two_zpow_add, zpow_natCast]
  push_cast
  ring

theorem place_le_of_lt {m : ℕ} (pos : 0 < m) (few : m < 2 ^ 53) {e : ℤ} (least : -1074 ≤ e) :
    place (m * 2 ^ e) ≤ e := by
  have positive : (0 : ℝ) < m * 2 ^ e := mul_pos (Nat.cast_pos.2 pos) (two_zpow_pos e)
  have small : (m : ℝ) * 2 ^ e < ((2 : ℕ) : ℝ) ^ (53 + e) := by
    rw [Nat.cast_two, two_zpow_add]
    refine mul_lt_mul_of_pos_right ?_ (two_zpow_pos e)
    exact_mod_cast few
  have order := (Int.lt_zpow_iff_log_lt one_lt_two positive).1 small
  unfold place
  omega

theorem nearestMagnitude_zero : nearestMagnitude 0 = 0 := by
  rw [nearestMagnitude, zero_div, ← Nat.cast_zero, nearestWhole_natCast, Nat.cast_zero, zero_mul]

theorem nearestMagnitude_of_le {m : ℕ} (few : m ≤ 2 ^ 53) {e : ℤ} (least : -1074 ≤ e) :
    nearestMagnitude (m * 2 ^ e) = m * 2 ^ e := by
  rcases Nat.eq_zero_or_pos m with rfl | pos
  · rw [Nat.cast_zero, zero_mul, nearestMagnitude_zero]
  · rcases few.lt_or_eq with fewer | rfl
    · exact nearestMagnitude_of_place_le (place_le_of_lt pos fewer least)
    · -- One place more is a power of two, and takes one place.
      have shifted : ((2 ^ 53 : ℕ) : ℝ) * 2 ^ e = ((2 ^ 52 : ℕ) : ℝ) * 2 ^ (1 + e) := by
        rw [two_zpow_add]
        norm_num
        ring
      rw [shifted]
      exact nearestMagnitude_of_place_le (place_le_of_lt (by norm_num) (by norm_num) (by omega))

/-! ## Numbers with a sign -/

theorem nearest_of_nonneg {x : ℝ} (h : 0 ≤ x) : nearest x = nearestMagnitude x :=
  if_neg (not_lt_of_ge h)

theorem nearest_neg (x : ℝ) : nearest (-x) = -nearest x := by
  rcases lt_trichotomy x 0 with neg | rfl | pos
  · rw [nearest_of_nonneg (neg_nonneg.2 neg.le), nearest, if_pos neg, neg_neg]
  · rw [neg_zero, nearest_of_nonneg le_rfl, nearestMagnitude_zero, neg_zero]
  · rw [nearest_of_nonneg pos.le, nearest, if_pos (neg_neg_of_pos pos), neg_neg]

theorem nearest_nonneg {x : ℝ} (h : 0 ≤ x) : 0 ≤ nearest x :=
  (nearest_of_nonneg h).symm ▸ nearestMagnitude_nonneg x

/-- **A greater number is not rounded to a smaller one.** -/
theorem nearest_mono : Monotone nearest := by
  intro x y h
  rcases lt_trichotomy x 0 with neg | rfl | pos
  · rcases lt_or_ge y 0 with neg' | nonneg
    · rw [nearest, nearest, if_pos neg, if_pos neg', neg_le_neg_iff]
      exact nearestMagnitude_mono (neg_pos.2 neg') (neg_le_neg h)
    · refine le_trans ?_ (nearest_nonneg nonneg)
      rw [nearest, if_pos neg]
      exact neg_nonpos.2 (nearestMagnitude_nonneg _)
  · rw [nearest_of_nonneg le_rfl, nearestMagnitude_zero]
    exact nearest_nonneg h
  · rw [nearest_of_nonneg pos.le, nearest_of_nonneg (pos.le.trans h)]
    exact nearestMagnitude_mono pos h

theorem Fits.neg {x : ℝ} (h : Fits x) : Fits (-x) := by
  obtain ⟨m, e, few, least, rfl⟩ := h
  exact ⟨-m, e, by rwa [abs_neg], least, by push_cast; ring⟩

theorem fits_natCast_mul {m : ℕ} (few : m ≤ 2 ^ 53) {e : ℤ} (least : -1074 ≤ e) :
    Fits (m * 2 ^ e) :=
  ⟨m, e, by rw [Nat.abs_cast]; exact_mod_cast few, least, by push_cast; rfl⟩

theorem fits_natCast {n : ℕ} (few : n ≤ 2 ^ 53) : Fits n := by
  simpa using fits_natCast_mul few (e := 0) (by norm_num)

theorem fits_two_zpow {e : ℤ} (least : -1074 ≤ e) : Fits (2 ^ e) := by
  simpa using fits_natCast_mul (m := 1) (by norm_num) least

/-- **A number that has a float is not rounded.** -/
theorem nearest_of_fits {x : ℝ} (h : Fits x) : nearest x = x := by
  have nonneg : ∀ (m : ℕ) (e : ℤ), m ≤ 2 ^ 53 → -1074 ≤ e → nearest (m * 2 ^ e) = m * 2 ^ e := by
    intro m e few least
    rw [nearest_of_nonneg (mul_nonneg (Nat.cast_nonneg m) (two_zpow_pos e).le)]
    exact nearestMagnitude_of_le few least
  obtain ⟨m, e, few, least, rfl⟩ := h
  obtain ⟨n, rfl | rfl⟩ := m.eq_nat_or_neg
  · rw [Nat.abs_cast] at few
    simpa using nonneg n e (by exact_mod_cast few) least
  · rw [abs_neg, Nat.abs_cast] at few
    rw [Int.cast_neg, neg_mul, nearest_neg, Int.cast_natCast, nonneg n e (by exact_mod_cast few) least]

theorem fits_nearest (x : ℝ) : Fits (nearest x) := by
  have magnitude : ∀ y : ℝ, Fits (nearestMagnitude y) :=
    fun y => fits_natCast_mul nearestWhole_le (neg_1074_le_place y)
  rw [nearest]
  split
  · exact (magnitude _).neg
  · exact magnitude _

theorem nearest_zero : nearest 0 = 0 := by
  rw [nearest_of_nonneg le_rfl, nearestMagnitude_zero]

/-- Every number with a float is a multiple of the least power of two that has one. -/
theorem Fits.exists_int {x : ℝ} (h : Fits x) : ∃ k : ℤ, x = k * 2 ^ (-1074 : ℤ) := by
  obtain ⟨m, e, -, least, rfl⟩ := h
  obtain ⟨n, rfl⟩ : ∃ n : ℕ, e = n + -1074 := ⟨(e + 1074).toNat, by omega⟩
  refine ⟨m * 2 ^ n, ?_⟩
  rw [two_zpow_add, zpow_natCast]
  push_cast
  ring

/-- So different ones are as far apart at least. -/
theorem Fits.le_sub {x y : ℝ} (hx : Fits x) (hy : Fits y) (h : x < y) : 2 ^ (-1074 : ℤ) ≤ y - x := by
  obtain ⟨k, rfl⟩ := hx.exists_int
  obtain ⟨l, rfl⟩ := hy.exists_int
  have less : k < l := by exact_mod_cast (mul_lt_mul_iff_left₀ (two_zpow_pos (-1074))).1 h
  have apart : (1 : ℝ) ≤ l - k := by exact_mod_cast (show (1 : ℤ) ≤ l - k by omega)
  calc (2 : ℝ) ^ (-1074 : ℤ) = 1 * 2 ^ (-1074 : ℤ) := (one_mul _).symm
    _ ≤ (l - k) * 2 ^ (-1074 : ℤ) := mul_le_mul_of_nonneg_right apart (two_zpow_pos _).le
    _ = l * 2 ^ (-1074 : ℤ) - k * 2 ^ (-1074 : ℤ) := sub_mul _ _ _

/-! ## Overflow -/

/-- The least power of two that is too great for a float. -/
noncomputable def limit : ℝ := 2 ^ (1024 : ℤ)

theorem limit_pos : 0 < limit := two_zpow_pos 1024

/-- Half a place below: the least number that is rounded there. -/
noncomputable def overflow : ℝ := (2 ^ 53 - 1 / 2) * 2 ^ (971 : ℤ)

/-- What is too great for a float is infinite. -/
noncomputable def bounded (x : ℝ) : EReal := if limit ≤ x then ⊤ else if x ≤ -limit then ⊥ else x

/-- What a result is rounded to: the nearest number, or an infinity if that is too great. -/
noncomputable def rounded (v : EReal) : EReal :=
  if v = ⊤ then ⊤ else if v = ⊥ then ⊥ else bounded (nearest v.toReal)

@[simp] theorem rounded_top : rounded ⊤ = ⊤ := if_pos rfl

@[simp] theorem rounded_bot : rounded ⊥ = ⊥ := by
  rw [rounded, if_neg (by simp), if_pos rfl]

theorem rounded_coe (x : ℝ) : rounded x = bounded (nearest x) := by
  rw [rounded, if_neg (EReal.coe_ne_top x), if_neg (EReal.coe_ne_bot x), EReal.toReal_coe]

theorem bounded_mono : Monotone bounded := by
  intro x y h
  unfold bounded
  have large := limit_pos
  split_ifs
  all_goals first
    | exact le_top
    | exact bot_le
    | exact EReal.coe_le_coe_iff.2 h
    | linarith

theorem rounded_mono : Monotone rounded := by
  intro v w h
  induction v with
  | bot => rw [rounded_bot]; exact bot_le
  | top => rw [top_le_iff.1 h]
  | coe x =>
    induction w with
    | bot => exact absurd (le_bot_iff.1 h) (EReal.coe_ne_bot x)
    | top => rw [rounded_top]; exact le_top
    | coe y =>
      rw [rounded_coe, rounded_coe]
      exact bounded_mono (nearest_mono (EReal.coe_le_coe_iff.1 h))

/-- Rounding is done once. -/
theorem rounded_nearest (x : ℝ) : rounded (nearest x) = rounded x := by
  rw [rounded_coe, rounded_coe, nearest_of_fits (fits_nearest x)]

theorem bounded_neg (x : ℝ) : bounded (-x) = -bounded x := by
  have large := limit_pos
  unfold bounded
  by_cases above : limit ≤ x
  · rw [if_pos above, if_neg (by linarith), if_pos (by linarith), EReal.neg_top]
  · by_cases below : x ≤ -limit
    · rw [if_neg above, if_pos below, if_pos (by linarith), EReal.neg_bot]
    · rw [if_neg above, if_neg below, if_neg (by linarith), if_neg (by linarith), EReal.coe_neg]

theorem bounded_of_lt {x : ℝ} (h : |x| < limit) : bounded x = x := by
  obtain ⟨below, above⟩ := abs_lt.1 h
  rw [bounded, if_neg (not_le_of_gt above), if_neg (not_le_of_gt below)]

/-- A number that has a float, and is not too great for one, is not rounded. -/
theorem rounded_of_fits {x : ℝ} (fits : Fits x) (small : |x| < limit) : rounded x = x := by
  rw [rounded_coe, nearest_of_fits fits, bounded_of_lt small]

theorem rounded_two_zpow {e : ℤ} (least : -1074 ≤ e) (most : e < 1024) :
    rounded ((2 ^ e : ℝ) : EReal) = ((2 ^ e : ℝ) : EReal) := by
  apply rounded_of_fits (fits_two_zpow least)
  rw [abs_of_pos (two_zpow_pos e)]
  exact zpow_lt_zpow_right₀ one_lt_two most

theorem rounded_zero : rounded 0 = 0 := by
  rw [← EReal.coe_zero, rounded_coe, nearest_zero, bounded_of_lt (abs_zero.trans_lt limit_pos)]

theorem rounded_nonneg {v : EReal} (h : 0 ≤ v) : 0 ≤ rounded v :=
  rounded_zero.symm.trans_le (rounded_mono h)

theorem rounded_ne_zero {x : ℝ} (large : 2 ^ (-1074 : ℤ) ≤ |x|) : rounded x ≠ 0 := by
  have least : ((2 ^ (-1074 : ℤ) : ℝ) : EReal) ≤ rounded (|x| : ℝ) :=
    (rounded_two_zpow le_rfl (by norm_num)).symm.trans_le (rounded_mono (EReal.coe_le_coe_iff.2 large))
  have pos : 0 < rounded (|x| : ℝ) := lt_of_lt_of_le (EReal.coe_pos.2 (two_zpow_pos _)) least
  rcases abs_choice x with same | opposite
  · exact (same ▸ pos).ne'
  · rw [opposite, rounded_coe, nearest_neg, bounded_neg, ← rounded_coe] at pos
    intro zero
    rw [zero, neg_zero] at pos
    exact pos.false

/-- What is a quarter of the least float, or less, is lost. -/
theorem rounded_eq_zero {x : ℝ} (nonneg : 0 ≤ x) (small : x ≤ 2 ^ (-1076 : ℤ)) : rounded x = 0 := by
  have least : nearest (2 ^ (-1076 : ℤ)) = 0 := by
    have last : place (2 ^ (-1076 : ℤ)) = -1074 := by
      have log : Int.log 2 (2 ^ (-1076 : ℤ) : ℝ) = -1076 := by
        exact_mod_cast Int.log_zpow (R := ℝ) (b := 2) one_lt_two (-1076)
      rw [place, log]
      norm_num
    have quarter : (2 : ℝ) ^ (-1076 : ℤ) / 2 ^ (-1074 : ℤ) = 1 / 4 := by
      rw [← zpow_sub₀ two_ne_zero]
      norm_num
    rw [nearest_of_nonneg (two_zpow_pos _).le, nearestMagnitude, last, quarter, nearestWhole,
      show ⌊(1 / 4 : ℝ)⌋₊ = 0 from Nat.floor_eq_zero.2 (by norm_num), if_pos (.inl (by norm_num)),
      Nat.cast_zero, zero_mul]
  rw [rounded_coe, le_antisymm ((nearest_mono small).trans_eq least) (nearest_nonneg nonneg),
    bounded_of_lt (abs_zero.trans_lt limit_pos), EReal.coe_zero]

/-- **What lies between two floats still does when it has been rounded.** -/
theorem rounded_mem_Icc {a v b : EReal} (least : rounded a = a) (greatest : rounded b = b)
    (h : v ∈ Set.Icc a b) : rounded v ∈ Set.Icc a b :=
  ⟨least.symm.trans_le (rounded_mono h.1), (rounded_mono h.2).trans_eq greatest⟩

end FxPulse.Number
