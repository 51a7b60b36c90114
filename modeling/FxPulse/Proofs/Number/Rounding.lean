import FxPulse.Proofs.Number.Worth

/-!
# `Proofs/Number/Rounding.lean` — rounding by bits

Results are rounded on integers. What does not fit into the significand is shifted out of it, and two bits
remember of it what rounding needs: whether it was a half or more, and whether there was anything else. What an
extended significand tells about an exact number survives each shift (`Tells.shiftRightOne`), and at the end it
is just enough:

> the result of rounding by bits is the nearest number (`rounds_roundWithAccuracy`).

Rounding up may take one place too many, so there is a second shift; it loses nothing.
-/

set_option autoImplicit false

namespace FxPulse.Number

open Float.Model Float.Model.UnpackedFloat

/-! ## Extended significands -/

/-- The number lies where the significand and its two bits say: above a half of the last place if the one is
set, and on a half exactly if the other is not. -/
structure Tells (em : ExtendedMantissa) (x : ℝ) : Prop where
  exists_rest : ∃ rest : ℝ, x = em.mantissa + (if em.roundBit then 1 / 2 else 0) + rest ∧ 0 ≤ rest ∧
    rest < 1 / 2 ∧ (em.stickyBit = false ↔ rest = 0)

theorem tells_exact (m : ℕ) : Tells (.ofMantissaAndAccuracy m .exact) m :=
  ⟨0, by simp [ExtendedMantissa.ofMantissaAndAccuracy], le_rfl, by norm_num, iff_of_true rfl rfl⟩

/-- A number between two whole ones is told by how it compares with the middle. -/
theorem tells_inexact {m : ℕ} {x : ℝ} (above : m < x) (below : x < m + 1) :
    Tells (.ofMantissaAndAccuracy m (.inexact (cmp x (m + 1 / 2)))) x := by
  rcases lt_trichotomy x (m + 1 / 2) with less | middle | more
  · rw [(cmp_eq_lt_iff _ _).2 less]
    refine ⟨x - m, by simp [ExtendedMantissa.ofMantissaAndAccuracy], by linarith, by linarith, ?_⟩
    exact iff_of_false (by simp [ExtendedMantissa.ofMantissaAndAccuracy]) (by linarith)
  · rw [middle, cmp_self_eq_eq]
    exact ⟨0, by simp [ExtendedMantissa.ofMantissaAndAccuracy], le_rfl, by norm_num,
      iff_of_true rfl rfl⟩
  · rw [(cmp_eq_gt_iff _ _).2 more]
    refine ⟨x - (m + 1 / 2), by simp [ExtendedMantissa.ofMantissaAndAccuracy], by linarith, by linarith, ?_⟩
    exact iff_of_false (by simp [ExtendedMantissa.ofMantissaAndAccuracy]) (by linarith)

namespace Tells

variable {em : ExtendedMantissa} {x : ℝ}

theorem floor_eq (h : Tells em x) : ⌊x⌋₊ = em.mantissa := by
  obtain ⟨rest, rfl, nonneg, small, -⟩ := h
  rw [Nat.floor_eq_iff (by positivity)]
  split <;> constructor <;> linarith

/-- What is shifted out is remembered. -/
theorem shiftRightOne (h : Tells em x) : Tells em.shiftRightOne (x / 2) := by
  obtain ⟨m, round, sticky⟩ := em
  obtain ⟨rest, rfl, nonneg, small, exact_iff⟩ := h
  have parity : (m : ℝ) = 2 * (m / 2 : ℕ) + (m % 2 : ℕ) := by
    exact_mod_cast (Nat.div_add_mod m 2).symm
  refine ⟨(if round then 1 / 4 else 0) + rest / 2, ?_, by positivity, ?_, ?_⟩
  · dsimp only [ExtendedMantissa.shiftRightOne] at parity ⊢
    rcases Nat.mod_two_eq_zero_or_one m with even | odd
    · simp only [even, bne_self_eq_false, Bool.false_eq_true, if_false] at parity ⊢
      rw [parity]
      split <;> push_cast <;> ring
    · simp only [odd] at parity ⊢
      rw [parity]
      split <;> push_cast <;> norm_num <;> ring
  · split <;> linarith
  · dsimp only [ExtendedMantissa.shiftRightOne] at exact_iff ⊢
    cases round with
    | false => simpa using exact_iff
    | true =>
      refine iff_of_false (by simp) ?_
      rw [if_pos rfl]
      linarith

theorem shiftRight (h : Tells em x) (n : ℕ) : Tells (em >>> n) (x / 2 ^ n) := by
  change Tells (n.repeat ExtendedMantissa.shiftRightOne em) _
  induction n with
  | zero =>
    rw [pow_zero, div_one]
    exact h
  | succ n ih =>
    rw [Nat.repeat, pow_succ, ← div_div]
    exact ih.shiftRightOne

/-- **The two bits are enough.** -/
theorem roundedMantissa_eq (h : Tells em x) : em.roundedMantissa = nearestWhole x := by
  have floor := h.floor_eq
  obtain ⟨m, round, sticky⟩ := em
  obtain ⟨rest, split, nonneg, small, exact_iff⟩ := h
  rw [nearestWhole, floor]
  dsimp only at split exact_iff ⊢
  have part : x - m = (if round then 1 / 2 else 0) + rest := by
    rw [split]
    ring
  rw [part]
  cases round with
  | false =>
    rw [if_neg Bool.false_ne_true, zero_add, if_pos (.inl small)]
    cases sticky <;> rfl
  | true =>
    rw [if_pos rfl]
    cases sticky with
    | false =>
      rw [exact_iff.1 rfl, add_zero]
      rcases Nat.mod_two_eq_zero_or_one m with even | odd
      · rw [if_pos (.inr ⟨rfl, even⟩)]
        exact congrArg (m + ·) even
      · rw [if_neg (by simp [odd])]
        exact congrArg (m + ·) odd
    | true =>
      have pos : 0 < rest :=
        lt_of_le_of_ne nonneg fun zero => Bool.false_ne_true (exact_iff.2 zero.symm).symm
      rw [if_neg]
      · rfl
      · rintro (less | ⟨half, -⟩) <;> linarith

end Tells

/-! ## Results -/

/-- A number with a sign in front. -/
def signed : Sign → ℝ → ℝ
  | .negative, x => -x
  | .positive, x => x

theorem cast_apply (s : Sign) (m : ℕ) : ((s.apply (m : ℤ) : ℤ) : ℝ) = signed s m := by
  cases s <;> simp [Sign.apply, signed]

theorem signed_mul (s : Sign) (x y : ℝ) : signed s x * y = signed s (x * y) := by
  cases s <;> simp [signed]

theorem nearest_signed (s : Sign) (x : ℝ) : nearest (signed s x) = signed s (nearest x) := by
  cases s with
  | negative => exact nearest_neg x
  | positive => rfl

/-- The parts are those of a number, and packed they are what an exact result is rounded to. -/
structure Rounds (u : UnpackedFloat) (v : EReal) : Prop where
  number : u.isNaN = false
  canonical : Canonical u
  rounded_eq : rounded (worthOf u) = rounded v

theorem Rounds.of_nearest {u : UnpackedFloat} {x : ℝ} (number : u.isNaN = false) (canonical : Canonical u)
    (worth : worthOf u = nearest x) : Rounds u x :=
  ⟨number, canonical, by rw [worth, rounded_nearest]⟩

/-- Parts that need no rounding. -/
theorem Rounds.of_canonical {u : UnpackedFloat} (number : u.isNaN = false) (canonical : Canonical u) :
    Rounds u (worthOf u) :=
  ⟨number, canonical, rfl⟩

theorem log_mul_two_zpow {x : ℝ} (pos : 0 < x) (e : ℤ) : Int.log 2 (x * 2 ^ e) = Int.log 2 x + e := by
  have scaled : 0 < x * 2 ^ e := mul_pos pos (two_zpow_pos e)
  apply le_antisymm
  · have below : x * 2 ^ e < ((2 : ℕ) : ℝ) ^ (Int.log 2 x + 1 + e) := by
      rw [Nat.cast_two, two_zpow_add]
      refine mul_lt_mul_of_pos_right ?_ (two_zpow_pos e)
      exact_mod_cast Int.lt_zpow_succ_log_self (b := 2) one_lt_two x
    have order := (Int.lt_zpow_iff_log_lt one_lt_two scaled).1 below
    omega
  · refine (Int.zpow_le_iff_le_log one_lt_two scaled).1 ?_
    rw [Nat.cast_two, two_zpow_add]
    refine mul_le_mul_of_nonneg_right ?_ (two_zpow_pos e).le
    exact_mod_cast Int.zpow_log_le_self (b := 2) one_lt_two pos

/-- The exponent that a result is shifted to. -/
theorem targetExponent_eq (e : ℤ) :
    Format.targetExponent Format.binary64 e = max (e - 53) (-1074) := rfl

/-- From a significand and where the number lies above it one knows the place it is rounded at. -/
theorem targetExponent_eq_place {m : ℕ} {e : ℤ} {x : ℝ} (pos : 0 < x) (floor : ⌊x / 2 ^ e⌋₊ = m)
    (fine : e ≤ place x) :
    Format.targetExponent Format.binary64 (totalExponent m e) = place x := by
  have scaled : 0 < x / 2 ^ e := div_pos pos (two_zpow_pos e)
  have log : Int.log 2 x = Int.log 2 (x / 2 ^ e) + e := by
    rw [← log_mul_two_zpow scaled, div_mul_cancel₀ _ (two_zpow_pos e).ne']
  rw [targetExponent_eq, totalExponent, Nat.log2_eq_log_two]
  unfold place at fine ⊢
  rcases Nat.eq_zero_or_pos m with rfl | some_bits
  · -- A number below the least bit is so small that it is rounded at the least place.
    have small : x / 2 ^ e < ((2 : ℕ) : ℝ) ^ (0 : ℤ) := by
      rw [zpow_zero]
      exact Nat.floor_eq_zero.1 floor
    have order := (Int.lt_zpow_iff_log_lt one_lt_two scaled).1 small
    rw [Nat.log_zero_right]
    omega
  · have large : 1 ≤ x / 2 ^ e := by
      rw [← floor] at some_bits
      exact Nat.floor_pos.1 some_bits
    rw [log, Int.log_of_one_le_right 2 large, floor]
    congr 1
    omega

/-- The first shift is to that place. -/
theorem shiftToTargetExponent_tells {m : ℕ} {e : ℤ} {accuracy : Accuracy} {x : ℝ} (pos : 0 < x)
    (tells : Tells (.ofMantissaAndAccuracy m accuracy) (x / 2 ^ e)) (fine : e ≤ place x) :
    Tells (shiftToTargetExponent Format.binary64 m e accuracy).1 (x / 2 ^ place x) ∧
      (shiftToTargetExponent Format.binary64 m e accuracy).2 = place x := by
  have mantissa : (ExtendedMantissa.ofMantissaAndAccuracy m accuracy).mantissa = m := by
    cases accuracy with
    | exact => rfl
    | inexact order => cases order <;> rfl
  have target := targetExponent_eq_place pos (tells.floor_eq.trans mantissa) fine
  obtain ⟨n, hn⟩ : ∃ n : ℕ, place x = e + n := ⟨(place x - e).toNat, by omega⟩
  have amount : (place x - e).toNat = n := by omega
  unfold shiftToTargetExponent shiftToExponent
  rw [target]
  dsimp only
  rw [amount]
  refine ⟨?_, hn.symm⟩
  have shifted := tells.shiftRight n
  rwa [div_div, ← zpow_natCast, ← two_zpow_add, ← hn] at shifted

/-- The second shift only brings a significand that was rounded up by one place too many back to its places. -/
theorem shiftToTargetExponent_exact {m : ℕ} {e : ℤ} (few : m ≤ 2 ^ 53) (least : -1074 ≤ e)
    (full : 2 ^ 52 ≤ m ∨ e = -1074) :
    let shifted := shiftToTargetExponent Format.binary64 m e .exact
    (shifted.1.mantissa * 2 ^ shifted.2 : ℝ) = m * 2 ^ e ∧ shifted.1.mantissa < 2 ^ 53 ∧
      -1074 ≤ shifted.2 ∧ (2 ^ 52 ≤ shifted.1.mantissa ∨ shifted.2 = -1074) := by
  intro shifted
  rcases few.lt_or_eq with fewer | rfl
  · have places : m.log2 ≤ 52 := by
      rcases Nat.eq_zero_or_pos m with rfl | pos
      · exact Nat.zero_le _
      · exact Nat.le_of_lt_succ ((Nat.log2_lt pos.ne').2 fewer)
    have amount : (Format.targetExponent Format.binary64 (totalExponent m e) - e).toNat = 0 := by
      rw [targetExponent_eq, totalExponent]
      omega
    have same : shifted = (.ofMantissaAndAccuracy m .exact, e) := by
      change (_, _) = _
      rw [amount, Nat.cast_zero, add_zero]
      rfl
    rw [same]
    exact ⟨rfl, fewer, least, full⟩
  · have amount : (Format.targetExponent Format.binary64 (totalExponent (2 ^ 53) e) - e).toNat = 1 := by
      rw [targetExponent_eq, totalExponent, Nat.log2_two_pow]
      omega
    have halved : shifted = ((ExtendedMantissa.ofMantissaAndAccuracy (2 ^ 53) .exact).shiftRightOne, e + 1) := by
      change (_, _) = _
      rw [amount]
      rfl
    have half : (ExtendedMantissa.ofMantissaAndAccuracy (2 ^ 53) .exact).shiftRightOne.mantissa = 2 ^ 52 := by
      decide
    rw [halved]
    dsimp only
    rw [half]
    refine ⟨?_, by norm_num, by omega, .inl le_rfl⟩
    rw [two_zpow_add]
    norm_num
    ring

/-- **The result of rounding by bits is the nearest number**, provided that no bits were missing to begin with. -/
theorem rounds_roundWithAccuracy {m : ℕ} {e : ℤ} {accuracy : Accuracy} {x : ℝ} (s : Sign) (pos : 0 < x)
    (tells : Tells (.ofMantissaAndAccuracy m accuracy) (x / 2 ^ e)) (fine : e ≤ place x) :
    Rounds (roundWithAccuracy Format.binary64 s m e accuracy) (signed s x : ℝ) := by
  obtain ⟨first, atPlace⟩ := shiftToTargetExponent_tells pos tells fine
  have full : 2 ^ 52 ≤ nearestWhole (x / 2 ^ place x) ∨ place x = -1074 := by
    rcases (neg_1074_le_place x).lt_or_eq with above | least
    · exact .inl (le_nearestWhole pos above)
    · exact .inr least.symm
  have carried := shiftToTargetExponent_exact nearestWhole_le (neg_1074_le_place x) full
  have value : nearest (signed s x) = signed s (nearestWhole (x / 2 ^ place x) * 2 ^ place x) := by
    rw [nearest_signed, nearest_of_nonneg pos.le, nearestMagnitude]
  unfold roundWithAccuracy
  revert first atPlace
  generalize shiftToTargetExponent Format.binary64 m e accuracy = shifted
  obtain ⟨em, place'⟩ := shifted
  rintro first rfl
  dsimp only at first carried ⊢
  rw [first.roundedMantissa_eq]
  revert carried
  generalize shiftToTargetExponent Format.binary64 _ _ .exact = final
  rintro ⟨same, few, least, full⟩
  rw [← same] at value
  split
  · rename_i zero
    refine .of_nearest rfl trivial ?_
    rw [value, zero, Nat.cast_zero, zero_mul]
    cases s <;> simp [signed, worthOf]
  · refine .of_nearest rfl ⟨few, least, full⟩ ?_
    rw [value, worthOf_finite, cast_apply, signed_mul]

/-- A whole number of some places is rounded whatever its places. -/
theorem rounds_round {m : ℕ} (pos : 0 < m) (e : ℤ) (s : Sign) :
    Rounds (UnpackedFloat.round Format.binary64 s m e) (signed s (m * 2 ^ e) : ℝ) := by
  have positive := mul_two_zpow_pos pos e
  have target : Format.targetExponent Format.binary64 (totalExponent m e) = place (m * 2 ^ e) := by
    rw [targetExponent_eq, totalExponent, Nat.log2_eq_log_two, place,
      log_mul_two_zpow (Nat.cast_pos.2 pos), Int.log_natCast]
    congr 1
    omega
  unfold UnpackedFloat.round decreaseExponent
  rw [target]
  dsimp only
  generalize hn : (e - place (m * 2 ^ e)).toNat = n
  refine rounds_roundWithAccuracy s positive ?_ (by omega)
  have scaled : (m * 2 ^ e : ℝ) / 2 ^ (e - (n : ℤ)) = ((m <<< n : ℕ) : ℝ) := by
    rw [Nat.shiftLeft_eq, Nat.cast_mul, Nat.cast_pow, Nat.cast_two, mul_div_assoc, ← zpow_sub₀ two_ne_zero,
      show e - (e - (n : ℤ)) = n by omega, zpow_natCast]
  rw [scaled]
  exact tells_exact _

/-- So is an integer, with its sign. -/
theorem rounds_normalize (m e : ℤ) (zeroSign : Sign) :
    Rounds (UnpackedFloat.normalize Format.binary64 m e zeroSign) (m * 2 ^ e : ℝ) := by
  unfold UnpackedFloat.normalize
  rcases lt_trichotomy m 0 with neg | rfl | pos
  · rw [compare_lt_iff_lt.2 neg]
    obtain ⟨n, rfl⟩ : ∃ n : ℕ, m = -n := ⟨(-m).toNat, by omega⟩
    have magnitude := rounds_round (m := n) (by omega) e .negative
    simpa [signed] using magnitude
  · rw [compare_eq_iff_eq.2 rfl, Int.cast_zero, zero_mul]
    exact .of_canonical (u := .zero zeroSign) rfl trivial
  · rw [compare_gt_iff_gt.2 pos]
    obtain ⟨n, rfl⟩ : ∃ n : ℕ, m = n := ⟨m.toNat, by omega⟩
    have magnitude := rounds_round (m := n) (by omega) e .positive
    simpa [signed] using magnitude

end FxPulse.Number
