import FxPulse.Proofs.Number.Nearest
import FxPulse.Proofs.Number.Order

/-!
# `Proofs/Number/Worth.lean` — what a float stands for

A float that is a number stands for a real number or an infinity. Floats that come out of their bits are
written in one way only, with all places of the significand in use unless the exponent is the least; so their
parts can be compared part by part, and

> floats are ordered as what they stand for is (`le_iff_worth`, `lt_iff_worth`, `beq_iff_worth`).

A result is packed into bits again, and only then becomes infinite if it is too great. So packing is where a
result is rounded for the second time (`worthOf_unpack_pack`).
-/

set_option autoImplicit false

namespace FxPulse.Number

open Float.Model Float.Model.UnpackedFloat

/-- What the parts of a float stand for. What is no number stands for nothing; it is given zero. -/
noncomputable def worthOf : UnpackedFloat → EReal
  | .notANumber => 0
  | .infinity .positive => ⊤
  | .infinity .negative => ⊥
  | .zero _ => 0
  | .finite s m e _ => scaled (s.apply m) e

theorem worthOf_finite (s : Sign) (m : ℕ) (e : ℤ) (pos : 0 < m) :
    worthOf (.finite s m e pos) = ((s.apply m * 2 ^ e : ℝ) : EReal) := rfl

/-- The significand has 53 places, or the exponent is the least. -/
def Canonical : UnpackedFloat → Prop
  | .finite _ m e _ => m < 2 ^ 53 ∧ -1074 ≤ e ∧ (2 ^ 52 ≤ m ∨ e = -1074)
  | _ => True

/-- The exponent is none that is kept for infinities. -/
def InRange : UnpackedFloat → Prop
  | .finite _ _ e _ => e ≤ 971
  | _ => True

/-! ## Parts out of bits -/

theorem toNat_hidden (mantissa : BitVec 52) : (1#1 ++ mantissa).toNat = 2 ^ 52 + mantissa.toNat := by
  rw [BitVec.toNat_append, Nat.shiftLeft_eq]
  have small := mantissa.isLt
  rw [show (1#1).toNat * 2 ^ 52 = 2 ^ 52 * 1 by rfl, ← Nat.two_pow_add_eq_or_of_lt small, Nat.mul_one]

theorem canonical_unpack (bits : BitVec Format.binary64.numBits) :
    Canonical (UnpackedFloat.unpack Format.binary64 bits) ∧
      InRange (UnpackedFloat.unpack Format.binary64 bits) := by
  have small := (unpackMantissa bits).isLt
  have exponent := (unpackExponent bits).isLt
  unfold UnpackedFloat.unpack
  dsimp only [Format.exponentBias] at small exponent ⊢
  split
  · split <;> exact ⟨trivial, trivial⟩
  · split
    · split
      · exact ⟨trivial, trivial⟩
      · rename_i zero _
        rw [zero]
        refine ⟨⟨by omega, by simp, .inr (by simp)⟩, by simp [InRange]⟩
    · rename_i notOnes notZero
      have pos : (unpackExponent bits).toNat ≠ 0 :=
        fun h => notZero (BitVec.eq_of_toNat_eq h)
      have below : (unpackExponent bits).toNat ≠ 2047 :=
        fun h => notOnes (BitVec.eq_of_toNat_eq h)
      refine ⟨⟨?_, ?_, .inl ?_⟩, ?_⟩
      · rw [toNat_hidden]; omega
      · omega
      · rw [toNat_hidden]; omega
      · simp only [InRange]; omega

/-! ## Parts into bits and out of them -/

theorem unpackSign_eq {s : Sign} {e : BitVec 11} {m : BitVec 52} :
    Sign.ofBitVec (unpackSign (packComponents Format.binary64 s e m)) = s := by
  rw [unpackSign_packComponents, ofBitVec_toBitVec]

/-- Parts that fit come out of the bits as they went in. -/
theorem unpack_pack_of_inRange {u : UnpackedFloat} (canonical : Canonical u) (inRange : InRange u) :
    UnpackedFloat.unpack Format.binary64 (UnpackedFloat.pack Format.binary64 u) = u := by
  cases u with
  | notANumber => rfl
  | infinity s => cases s <;> rfl
  | zero s => cases s <;> rfl
  | finite s m e pos =>
    obtain ⟨few, least, full⟩ := canonical
    have most : e ≤ 971 := inRange
    have biased : (e + ((Format.exponentBias Format.binary64 : ℕ) : ℤ) + ((52 : ℕ) : ℤ)).toNat
        = (e + 1075).toNat := by
      rw [show Format.exponentBias Format.binary64 = 1023 from rfl]
      omega
    have bits : Format.mantissaBits Format.binary64 = 53 := rfl
    rw [UnpackedFloat.pack]
    dsimp only
    rw [biased, bits, if_neg (by norm_num; omega)]
    by_cases normal : 2 ^ 52 ≤ m
    · have log : m.log2 = 52 := (Nat.log2_eq_iff pos.ne').2 ⟨normal, few⟩
      have exponent : (BitVec.ofNat 11 (e + 1075).toNat).toNat = (e + 1075).toNat := by
        rw [BitVec.toNat_ofNat]
        omega
      have mantissa : 2 ^ 52 + (BitVec.ofNat 52 m).toNat = m := by
        rw [BitVec.toNat_ofNat]
        omega
      have notOnes : BitVec.ofNat 11 (e + 1075).toNat ≠ -1#11 := by
        intro h
        have value := congrArg BitVec.toNat h
        rw [exponent] at value
        norm_num at value
        omega
      have notZero : BitVec.ofNat 11 (e + 1075).toNat ≠ 0#11 := by
        intro h
        have value := congrArg BitVec.toNat h
        rw [exponent] at value
        norm_num at value
        omega
      rw [if_pos (by rw [log]), UnpackedFloat.unpack]
      simp only [unpackMantissa_packComponents, unpackExponent_packComponents, unpackSign_eq]
      rw [if_neg notOnes, if_neg notZero]
      simp only [toNat_hidden, mantissa, exponent]
      congr 1
      rw [show Format.exponentBias Format.binary64 = 1023 from rfl]
      omega
    · -- Without its highest place the exponent is the least, and is written as zero.
      have log : m.log2 ≠ 52 := fun h => normal ((Nat.log2_eq_iff pos.ne').1 h).1
      obtain rfl : e = -1074 := full.resolve_left normal
      have mantissa : (BitVec.ofNat 52 m).toNat = m := by
        rw [BitVec.toNat_ofNat]
        omega
      have notZero : BitVec.ofNat 52 m ≠ 0#52 := by
        intro h
        have value := congrArg BitVec.toNat h
        rw [mantissa] at value
        exact pos.ne' value
      rw [if_neg (by omega), UnpackedFloat.unpack]
      simp only [unpackMantissa_packComponents, unpackExponent_packComponents, unpackSign_eq]
      rw [if_neg (by decide), if_pos trivial, dif_neg notZero]
      simp only [mantissa]
      congr 1

/-- Too great an exponent turns into an infinity. -/
theorem unpack_pack_of_not_inRange {s : Sign} {m : ℕ} {e : ℤ} {pos : 0 < m} (great : 971 < e) :
    UnpackedFloat.unpack Format.binary64 (UnpackedFloat.pack Format.binary64 (.finite s m e pos))
      = .infinity s := by
  have biased : (e + ((Format.exponentBias Format.binary64 : ℕ) : ℤ) + ((52 : ℕ) : ℤ)).toNat
      = (e + 1075).toNat := by
    rw [show Format.exponentBias Format.binary64 = 1023 from rfl]
    omega
  rw [UnpackedFloat.pack]
  dsimp only
  rw [biased, if_pos (by norm_num; omega)]
  cases s <;> rfl

/-! ## Worth -/

theorem apply_neg (s : Sign) (m : ℤ) : (-s).apply m = -s.apply m := by
  cases s with
  | negative => exact (neg_neg m).symm
  | positive => rfl

theorem worthOf_neg (u : UnpackedFloat) : worthOf u.neg = -worthOf u := by
  cases u with
  | notANumber => exact neg_zero.symm
  | infinity s =>
    cases s with
    | negative => exact EReal.neg_bot.symm
    | positive => exact EReal.neg_top.symm
  | zero s => exact neg_zero.symm
  | finite s m e pos =>
    rw [UnpackedFloat.neg, worthOf_finite, worthOf_finite, apply_neg, Int.cast_neg, neg_mul, EReal.coe_neg]

theorem abs_apply (s : Sign) (m : ℕ) : |s.apply (m : ℤ)| = m := by
  cases s with
  | negative => exact (abs_neg _).trans (Nat.abs_cast m)
  | positive => exact Nat.abs_cast m

theorem fits_apply {m : ℕ} (few : m < 2 ^ 53) {e : ℤ} (least : -1074 ≤ e) (s : Sign) :
    Fits (s.apply m * 2 ^ e) :=
  ⟨s.apply m, e, by rw [abs_apply]; exact_mod_cast few.le, least, rfl⟩

theorem abs_apply_mul (s : Sign) (m : ℕ) (e : ℤ) : |(s.apply m * 2 ^ e : ℝ)| = m * 2 ^ e := by
  rw [abs_mul, abs_of_pos (two_zpow_pos e), ← Int.cast_abs, abs_apply, Int.cast_natCast]

theorem limit_eq : limit = 2 ^ 53 * 2 ^ (971 : ℤ) := by
  rw [limit, show (1024 : ℤ) = 53 + 971 by norm_num, two_zpow_add]
  norm_num

theorem abs_apply_mul_lt {m : ℕ} (few : m < 2 ^ 53) {e : ℤ} (most : e ≤ 971) (s : Sign) :
    |(s.apply m * 2 ^ e : ℝ)| < limit := by
  rw [abs_apply_mul, limit_eq]
  calc (m : ℝ) * 2 ^ e < 2 ^ 53 * 2 ^ e :=
        mul_lt_mul_of_pos_right (by exact_mod_cast few) (two_zpow_pos e)
    _ ≤ 2 ^ 53 * 2 ^ (971 : ℤ) := mul_le_mul_of_nonneg_left (two_zpow_le most) (by positivity)

/-- **Packing rounds what is too great.** -/
theorem worthOf_unpack_pack {u : UnpackedFloat} (canonical : Canonical u) :
    worthOf (UnpackedFloat.unpack Format.binary64 (UnpackedFloat.pack Format.binary64 u))
      = rounded (worthOf u) := by
  cases u with
  | notANumber => exact rounded_zero.symm
  | infinity s =>
    cases s with
    | negative => exact rounded_bot.symm
    | positive => exact rounded_top.symm
  | zero s => cases s <;> exact rounded_zero.symm
  | finite s m e pos =>
    have ⟨few, least, full⟩ := canonical
    have fits := fits_apply few least s
    by_cases inRange : e ≤ 971
    · rw [unpack_pack_of_inRange canonical inRange, worthOf_finite,
        rounded_of_fits fits (abs_apply_mul_lt few inRange s)]
    · rw [unpack_pack_of_not_inRange (by omega), worthOf_finite, rounded_coe, nearest_of_fits fits]
      have large : limit ≤ m * 2 ^ e := by
        rw [limit, show (1024 : ℤ) = 52 + 972 by norm_num, two_zpow_add]
        refine mul_le_mul ?_ (two_zpow_le (by omega)) (two_zpow_pos _).le (Nat.cast_nonneg m)
        exact_mod_cast full.resolve_right (by omega)
      have pos := limit_pos
      cases s with
      | negative =>
        have below : ((Sign.negative.apply m : ℤ) : ℝ) * 2 ^ e = -(m * 2 ^ e) := by
          rw [Sign.apply, Int.cast_neg, Int.cast_natCast, neg_mul]
        rw [below, bounded_neg, bounded, if_pos large, EReal.neg_top]
        rfl
      | positive =>
        have above : ((Sign.positive.apply m : ℤ) : ℝ) * 2 ^ e = m * 2 ^ e := by
          rw [Sign.apply, Int.cast_natCast]
        rw [above, bounded, if_pos large]
        rfl

/-! ## Order -/

theorem mul_two_zpow_lt {m n : ℕ} {e k : ℤ} (few : m < 2 ^ 53) (least : -1074 ≤ e)
    (full : 2 ^ 52 ≤ n ∨ k = -1074) (below : e < k) : (m : ℝ) * 2 ^ e < n * 2 ^ k := by
  have large : 2 ^ 52 ≤ n := full.resolve_right (by omega)
  calc (m : ℝ) * 2 ^ e < 2 ^ 53 * 2 ^ e :=
        mul_lt_mul_of_pos_right (by exact_mod_cast few) (two_zpow_pos e)
    _ = 2 ^ 52 * 2 ^ (e + 1) := by rw [two_zpow_add]; norm_num; ring
    _ ≤ 2 ^ 52 * 2 ^ k := mul_le_mul_of_nonneg_left (two_zpow_le (by omega)) (by positivity)
    _ ≤ n * 2 ^ k := mul_le_mul_of_nonneg_right (by exact_mod_cast large) (two_zpow_pos k).le

/-- Significands with all their places are compared by exponents first. -/
theorem compare_then_compare {m n : ℕ} {e k : ℤ} (few : m < 2 ^ 53) (few' : n < 2 ^ 53)
    (least : -1074 ≤ e) (least' : -1074 ≤ k) (full : 2 ^ 52 ≤ m ∨ e = -1074)
    (full' : 2 ^ 52 ≤ n ∨ k = -1074) :
    (compare e k).then (compare m n) = cmp (m * 2 ^ e : ℝ) (n * 2 ^ k) := by
  rcases lt_trichotomy e k with below | rfl | above
  · rw [compare_lt_iff_lt.2 below, cmp_eq_lt_iff _ _ |>.2 (mul_two_zpow_lt few least full' below)]
    rfl
  · rw [compare_eq_iff_eq.2 rfl, Ordering.then]
    have scaled : ∀ a b : ℕ, (a : ℝ) * 2 ^ e < b * 2 ^ e ↔ a < b := by
      intro a b
      rw [mul_lt_mul_iff_left₀ (two_zpow_pos e), Nat.cast_lt]
    rcases lt_trichotomy m n with below | rfl | above
    · rw [compare_lt_iff_lt.2 below, (cmp_eq_lt_iff _ _).2 ((scaled m n).2 below)]
    · rw [compare_eq_iff_eq.2 rfl, cmp_self_eq_eq]
    · rw [compare_gt_iff_gt.2 above, (cmp_eq_gt_iff _ _).2 ((scaled n m).2 above)]
  · rw [compare_gt_iff_gt.2 above, cmp_eq_gt_iff _ _ |>.2 (mul_two_zpow_lt few' least' full above)]
    rfl

theorem worthOf_positive (m : ℕ) (e : ℤ) (pos : 0 < m) :
    worthOf (.finite .positive m e pos) = ((m * 2 ^ e : ℝ) : EReal) := by
  rw [worthOf_finite, Sign.apply, Int.cast_natCast]

theorem worthOf_negative (m : ℕ) (e : ℤ) (pos : 0 < m) :
    worthOf (.finite .negative m e pos) = ((-(m * 2 ^ e) : ℝ) : EReal) := by
  rw [worthOf_finite, Sign.apply, Int.cast_neg, Int.cast_natCast, neg_mul]

theorem mul_two_zpow_pos {m : ℕ} (pos : 0 < m) (e : ℤ) : (0 : ℝ) < m * 2 ^ e :=
  mul_pos (Nat.cast_pos.2 pos) (two_zpow_pos e)

theorem worthOf_positive_pos (m : ℕ) (e : ℤ) (pos : 0 < m) :
    0 < worthOf (.finite .positive m e pos) := by
  rw [worthOf_positive]
  exact EReal.coe_pos.2 (mul_two_zpow_pos pos e)

theorem worthOf_negative_neg (m : ℕ) (e : ℤ) (pos : 0 < m) :
    worthOf (.finite .negative m e pos) < 0 := by
  rw [worthOf_negative]
  exact EReal.coe_neg'.2 (neg_neg_of_pos (mul_two_zpow_pos pos e))

/-- **Numbers are compared as what they stand for.** -/
theorem compare_eq_cmp {u v : UnpackedFloat} (number : u.isNaN = false) (number' : v.isNaN = false)
    (canonical : Canonical u) (canonical' : Canonical v) :
    u.compare v = some (cmp (worthOf u) (worthOf v)) := by
  have lt : ∀ {a b : EReal}, a < b → some Ordering.lt = some (cmp a b) :=
    fun h => congrArg some ((cmp_eq_lt_iff _ _).2 h).symm
  have gt : ∀ {a b : EReal}, b < a → some Ordering.gt = some (cmp a b) :=
    fun h => congrArg some ((cmp_eq_gt_iff _ _).2 h).symm
  have eq : ∀ a : EReal, some Ordering.eq = some (cmp a a) :=
    fun a => congrArg some (cmp_self_eq_eq a).symm
  cases u with
  | notANumber => cases number
  | infinity s =>
    cases s with
    | positive =>
      cases v with
      | notANumber => cases number'
      | infinity t =>
        cases t with
        | positive => exact eq ⊤
        | negative => exact gt bot_lt_top
      | zero t => exact gt EReal.zero_lt_top
      | finite t n k pos => exact gt (EReal.coe_lt_top _)
    | negative =>
      cases v with
      | notANumber => cases number'
      | infinity t =>
        cases t with
        | positive => exact lt bot_lt_top
        | negative => exact eq ⊥
      | zero t => exact lt EReal.bot_lt_zero
      | finite t n k pos => exact lt (EReal.bot_lt_coe _)
  | zero s =>
    cases v with
    | notANumber => cases number'
    | infinity t =>
      cases t with
      | positive => exact lt EReal.zero_lt_top
      | negative => exact gt EReal.bot_lt_zero
    | zero t => exact eq 0
    | finite t n k pos =>
      cases t with
      | positive => exact lt (worthOf_positive_pos n k pos)
      | negative => exact gt (worthOf_negative_neg n k pos)
  | finite s m e pos =>
    cases v with
    | notANumber => cases number'
    | infinity t =>
      cases t with
      | positive => cases s <;> exact lt (EReal.coe_lt_top _)
      | negative => cases s <;> exact gt (EReal.bot_lt_coe _)
    | zero t =>
      cases s with
      | positive => exact gt (worthOf_positive_pos m e pos)
      | negative => exact lt (worthOf_negative_neg m e pos)
    | finite t n k pos' =>
      have magnitudes := compare_then_compare canonical.1 canonical'.1 canonical.2.1 canonical'.2.1
        canonical.2.2 canonical'.2.2
      cases s with
      | positive =>
        cases t with
        | positive =>
          rw [UnpackedFloat.compare, magnitudes, worthOf_positive, worthOf_positive]
          exact congrArg some (EReal.coe_strictMono.cmp_map_eq _ _).symm
        | negative => exact gt ((worthOf_negative_neg n k pos').trans (worthOf_positive_pos m e pos))
      | negative =>
        cases t with
        | positive => exact lt ((worthOf_negative_neg m e pos).trans (worthOf_positive_pos n k pos'))
        | negative =>
          have opposite : StrictAnti fun x : ℝ => ((-x : ℝ) : EReal) :=
            EReal.coe_strictMono.comp_strictAnti fun _ _ => neg_lt_neg
          rw [UnpackedFloat.compare, magnitudes, worthOf_negative, worthOf_negative, cmp_swap]
          exact congrArg some (opposite.cmp_map_eq _ _).symm

/-! ## Floats -/

/-- What a float stands for. -/
noncomputable def worth (x : Float) : EReal := worthOf (parts x)

theorem canonical_parts (x : Float) : Canonical (parts x) := (canonical_unpack _).1

theorem inRange_parts (x : Float) : InRange (parts x) := (canonical_unpack _).2

section Order

variable {x y : Float} (number : x.isNaN = false) (number' : y.isNaN = false)
include number number'

theorem compare_parts : (parts x).compare (parts y) = some (cmp (worth x) (worth y)) :=
  compare_eq_cmp number number' (canonical_parts x) (canonical_parts y)

theorem lt_iff_worth : x < y ↔ worth x < worth y := by
  rw [lt_iff, compare_parts number number', Option.some_inj, cmp_eq_lt_iff]

theorem le_iff_worth : x ≤ y ↔ worth x ≤ worth y := by
  rw [le_iff, compare_parts number number', Option.any_some, ← not_lt, ← cmp_eq_gt_iff]
  cases cmp (worth x) (worth y) <;> decide

theorem beq_iff_worth : (x == y) = true ↔ worth x = worth y := by
  change (parts x).beq (parts y) = true ↔ _
  rw [UnpackedFloat.beq, compare_parts number number', beq_iff_eq, Option.some_inj, cmp_eq_eq_iff]

end Order

/-- What a float stands for is not rounded any more. -/
theorem rounded_worth (x : Float) : rounded (worth x) = worth x := by
  rw [worth, ← worthOf_unpack_pack (canonical_parts x),
    unpack_pack_of_inRange (canonical_parts x) (inRange_parts x)]

/-- The float that a result is packed into. -/
def packed (u : UnpackedFloat) : Float := .ofModel (.pack u)

theorem worth_packed {u : UnpackedFloat} (canonical : Canonical u) :
    worth (packed u) = rounded (worthOf u) := worthOf_unpack_pack canonical

theorem isNaN_packed (u : UnpackedFloat) : (packed u).isNaN = u.isNaN := by
  cases number : u.isNaN with
  | false => exact isNaN_unpack_pack number
  | true =>
    cases u with
    | notANumber => rfl
    | _ => cases number

theorem worth_neg (x : Float) : worth (-x) = -worth x := by
  have canonical := canonical_parts x
  have inRange := inRange_parts x
  rw [worth, worth, parts_neg, ← worthOf_neg, unpack_pack_of_inRange]
  · revert canonical
    cases parts x <;> exact id
  · revert inRange
    cases parts x <;> exact id

/-- A finite float stands for a real number that fits. -/
theorem exists_real_of_isFinite {x : Float} (h : x.isFinite = true) :
    ∃ r : ℝ, worth x = r ∧ Fits r ∧ |r| < limit := by
  have canonical := canonical_parts x
  have inRange := inRange_parts x
  change (parts x).isFinite = true at h
  rw [worth]
  revert h canonical inRange
  cases parts x with
  | notANumber => exact nofun
  | infinity s => exact nofun
  | zero s =>
    intro _ _ _
    exact ⟨0, rfl, by simpa using fits_natCast (n := 0) (by norm_num), abs_zero.trans_lt limit_pos⟩
  | finite s m e pos =>
    intro canonical inRange _
    exact ⟨_, rfl, fits_apply canonical.1 canonical.2.1 s, abs_apply_mul_lt canonical.1 inRange s⟩

theorem isFinite_iff_worth {x : Float} (number : x.isNaN = false) :
    x.isFinite = true ↔ worth x ≠ ⊤ ∧ worth x ≠ ⊥ := by
  change (parts x).isFinite = true ↔ _
  change (parts x).isNaN = false at number
  rw [worth]
  revert number
  cases parts x with
  | notANumber => exact nofun
  | infinity s => cases s <;> simp [worthOf, UnpackedFloat.isFinite]
  | zero s => simp [worthOf, UnpackedFloat.isFinite]
  | finite s m e pos =>
    intro _
    exact iff_of_true rfl ⟨EReal.coe_ne_top _, EReal.coe_ne_bot _⟩

end FxPulse.Number
