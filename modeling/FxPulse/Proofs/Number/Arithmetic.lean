import FxPulse.Proofs.Number.Rounding

/-!
# `Proofs/Number/Arithmetic.lean` — results are exact results, rounded

Each operation on floats first works out its exact result on integers, as far as rounding needs it, and then
rounds. So of numbers

> sums, differences, products, quotients and square roots are the exact ones, rounded (`Stands.add` to
> `Stands.sqrt`),

unless there is no exact one: opposite infinities have no sum, zero and an infinity no product, and what is
divided by zero, or one infinity by another, no quotient.
-/

set_option autoImplicit false

namespace FxPulse.Number

open Float.Model Float.Model.UnpackedFloat

/-! ## Sums -/

theorem shiftLeft_mul (m : ℕ) {e least : ℤ} (h : least ≤ e) :
    (((m <<< (e - least).toNat : ℕ) : ℤ) : ℝ) * 2 ^ least = m * 2 ^ e := by
  obtain ⟨n, rfl⟩ : ∃ n : ℕ, e = least + n := ⟨(e - least).toNat, by omega⟩
  rw [show (least + (n : ℤ) - least).toNat = n by omega, Nat.shiftLeft_eq, two_zpow_add, zpow_natCast]
  push_cast
  ring

theorem apply_shiftLeft_mul (s : Sign) (m : ℕ) {e least : ℤ} (h : least ≤ e) :
    ((s.apply ((m <<< (e - least).toNat : ℕ) : ℤ) : ℤ) : ℝ) * 2 ^ least = s.apply m * 2 ^ e := by
  rw [cast_apply, cast_apply, signed_mul, signed_mul, ← shiftLeft_mul m h, Int.cast_natCast]

theorem rounds_add {u v : UnpackedFloat} (number : u.isNaN = false) (number' : v.isNaN = false)
    (canonical : Canonical u) (canonical' : Canonical v) (first : worthOf u ≠ ⊤ ∨ worthOf v ≠ ⊥)
    (second : worthOf u ≠ ⊥ ∨ worthOf v ≠ ⊤) :
    Rounds (UnpackedFloat.add Format.binary64 u v) (worthOf u + worthOf v) := by
  cases u with
  | notANumber => cases number
  | infinity s =>
    have infinite : Rounds (.infinity s) (worthOf (.infinity s)) := .of_canonical rfl trivial
    cases v with
    | notANumber => cases number'
    | infinity t =>
      cases s <;> cases t
      · exact infinite
      · exact absurd rfl (second.resolve_left (not_not_intro rfl))
      · exact absurd rfl (first.resolve_left (not_not_intro rfl))
      · exact infinite
    | zero t =>
      rw [show worthOf (.zero t) = 0 from rfl, add_zero]
      exact infinite
    | finite t n k pos =>
      cases s with
      | positive => exact (EReal.top_add_coe _).symm ▸ infinite
      | negative => exact (EReal.bot_add _).symm ▸ infinite
  | zero s =>
    rw [show worthOf (.zero s) = 0 from rfl, zero_add]
    cases v with
    | notANumber => cases number'
    | infinity t => exact .of_canonical rfl trivial
    | zero t => cases s <;> cases t <;> exact .of_canonical (u := .zero _) rfl trivial
    | finite t n k pos => exact .of_canonical rfl canonical'
  | finite s m e pos =>
    cases v with
    | notANumber => cases number'
    | infinity t =>
      have infinite : Rounds (.infinity t) (worthOf (.infinity t)) := .of_canonical rfl trivial
      cases t with
      | positive => exact (EReal.coe_add_top _).symm ▸ infinite
      | negative => exact (EReal.add_bot _).symm ▸ infinite
    | zero t =>
      rw [show worthOf (.zero t) = 0 from rfl, add_zero]
      exact .of_canonical rfl canonical
    | finite t n k pos' =>
      have exact_sum : worthOf (.finite s m e pos) + worthOf (.finite t n k pos')
          = (((s.apply ((m <<< (e - min e k).toNat : ℕ) : ℤ)
              + t.apply ((n <<< (k - min e k).toNat : ℕ) : ℤ) : ℤ) : ℝ) * 2 ^ min e k : ℝ) := by
        rw [worthOf_finite, worthOf_finite, ← EReal.coe_add, Int.cast_add, add_mul, apply_shiftLeft_mul s m (min_le_left e k),
          apply_shiftLeft_mul t n (min_le_right e k)]
      rw [exact_sum]
      exact rounds_normalize _ _ _

/-- A difference is a sum with the opposite. -/
theorem sub_eq_add_neg' (u v : UnpackedFloat) :
    UnpackedFloat.sub Format.binary64 u v = UnpackedFloat.add Format.binary64 u v.neg := by
  cases u with
  | notANumber => rfl
  | infinity s => cases v <;> rfl
  | zero s => cases v <;> rfl
  | finite s m e pos =>
    cases v with
    | finite t n k pos' =>
      rw [UnpackedFloat.neg, UnpackedFloat.sub, UnpackedFloat.add]
      dsimp only
      rw [apply_neg, sub_eq_add_neg]
    | _ => rfl

theorem canonical_neg {u : UnpackedFloat} (h : Canonical u) : Canonical u.neg := by
  revert h
  cases u <;> exact id

theorem isNaN_neg_parts {u : UnpackedFloat} (h : u.isNaN = false) : u.neg.isNaN = false := by
  revert h
  cases u <;> exact id

theorem rounds_sub {u v : UnpackedFloat} (number : u.isNaN = false) (number' : v.isNaN = false)
    (canonical : Canonical u) (canonical' : Canonical v) (first : worthOf u ≠ ⊤ ∨ worthOf v ≠ ⊤)
    (second : worthOf u ≠ ⊥ ∨ worthOf v ≠ ⊥) :
    Rounds (UnpackedFloat.sub Format.binary64 u v) (worthOf u - worthOf v) := by
  rw [sub_eq_add_neg', sub_eq_add_neg, ← worthOf_neg]
  apply rounds_add number (isNaN_neg_parts number') canonical (canonical_neg canonical')
  · exact first.imp_right fun h => by rwa [worthOf_neg, ne_eq, EReal.neg_eq_bot_iff]
  · exact second.imp_right fun h => by rwa [worthOf_neg, ne_eq, EReal.neg_eq_top_iff]

/-! ## Products -/

theorem signed_mul_signed (s t : Sign) (x y : ℝ) : signed s x * signed t y = signed (s * t) (x * y) := by
  cases s <;> cases t
  · exact neg_mul_neg x y
  · exact neg_mul x y
  · exact mul_neg x y
  · rfl

/-- A product is rounded to the nearest number if it has all places that it is rounded at. -/
theorem rounds_mul_of_le {s t : Sign} {m n : ℕ} {e k : ℤ} (pos : 0 < m) (pos' : 0 < n)
    (fine : e + k ≤ place ((m * n : ℕ) * 2 ^ (e + k))) :
    Rounds (UnpackedFloat.mul Format.binary64 (.finite s m e pos) (.finite t n k pos'))
      (worthOf (.finite s m e pos) * worthOf (.finite t n k pos')) := by
  have exact_product : worthOf (.finite s m e pos) * worthOf (.finite t n k pos')
      = (signed (s * t) ((m * n : ℕ) * 2 ^ (e + k)) : ℝ) := by
    rw [worthOf_finite, worthOf_finite, ← EReal.coe_mul, cast_apply, cast_apply, signed_mul s m, signed_mul t n,
      signed_mul_signed, two_zpow_add]
    congr 2
    push_cast
    ring
  rw [exact_product]
  refine rounds_roundWithAccuracy _ (mul_two_zpow_pos (Nat.mul_pos pos pos') (e + k)) ?_ fine
  rw [mul_div_cancel_right₀ _ (two_zpow_pos _).ne']
  exact tells_exact _

theorem rounds_mul_finite {s t : Sign} {m n : ℕ} {e k : ℤ} {pos : 0 < m} {pos' : 0 < n}
    (canonical : Canonical (.finite s m e pos)) (canonical' : Canonical (.finite t n k pos')) :
    Rounds (UnpackedFloat.mul Format.binary64 (.finite s m e pos) (.finite t n k pos'))
      (worthOf (.finite s m e pos) * worthOf (.finite t n k pos')) := by
  apply rounds_mul_of_le
  -- One of the two has all places, or both have the least exponent.
  rw [place, log_mul_two_zpow (Nat.cast_pos.2 (Nat.mul_pos pos pos')), Int.log_natCast]
  have large : 2 ^ 52 ≤ m * n ∨ e + k ≤ -1074 := by
    rcases canonical.2.2 with full | least
    · exact .inl (full.trans (Nat.le_mul_of_pos_right m pos'))
    · rcases canonical'.2.2 with full | least'
      · exact .inl (full.trans (Nat.le_mul_of_pos_left n pos))
      · exact .inr (by omega)
  rcases large with full | least
  · have places : 52 ≤ Nat.log 2 (m * n) := (Nat.le_log_iff_pow_le (by norm_num) (by positivity)).2 full
    omega
  · omega

theorem worthOf_infinity_mul (s : Sign) (t : Sign) (n : ℕ) (k : ℤ) (pos : 0 < n) :
    worthOf (.infinity s) * worthOf (.finite t n k pos) = worthOf (.infinity (s * t)) := by
  cases t with
  | positive =>
    have above := worthOf_positive_pos n k pos
    cases s
    · exact EReal.bot_mul_of_pos above
    · exact EReal.top_mul_of_pos above
  | negative =>
    have below := worthOf_negative_neg n k pos
    cases s
    · exact EReal.bot_mul_of_neg below
    · exact EReal.top_mul_of_neg below

theorem sign_mul_comm (s t : Sign) : s * t = t * s := by
  cases s <;> cases t <;> rfl

/-- No product of zero and an infinity. -/
theorem rounds_mul {u v : UnpackedFloat} (number : u.isNaN = false) (number' : v.isNaN = false)
    (canonical : Canonical u) (canonical' : Canonical v)
    (first : worthOf u = 0 → v.isFinite = true) (second : worthOf v = 0 → u.isFinite = true) :
    Rounds (UnpackedFloat.mul Format.binary64 u v) (worthOf u * worthOf v) := by
  cases u with
  | notANumber => cases number
  | infinity s =>
    cases v with
    | notANumber => cases number'
    | infinity t => cases s <;> cases t <;> exact .of_canonical (u := .infinity _) rfl trivial
    | zero t => cases second rfl
    | finite t n k pos =>
      rw [worthOf_infinity_mul]
      exact .of_canonical rfl trivial
  | zero s =>
    cases v with
    | notANumber => cases number'
    | infinity t => cases first rfl
    | zero t =>
      rw [show worthOf (.zero s) = 0 from rfl, zero_mul]
      exact .of_canonical (u := .zero _) rfl trivial
    | finite t n k pos =>
      rw [show worthOf (.zero s) = 0 from rfl, zero_mul]
      exact .of_canonical (u := .zero _) rfl trivial
  | finite s m e pos =>
    cases v with
    | notANumber => cases number'
    | infinity t =>
      rw [mul_comm, worthOf_infinity_mul, sign_mul_comm]
      exact .of_canonical rfl trivial
    | zero t =>
      rw [show worthOf (.zero t) = 0 from rfl, mul_zero]
      exact .of_canonical (u := .zero _) rfl trivial
    | finite t n k pos' => exact rounds_mul_finite canonical canonical'

/-! ## Quotients -/

/-- The remainder of a division tells where the quotient lies. -/
theorem tells_accuracyOfFraction (m : ℕ) {n : ℕ} (pos : 0 < n) :
    Tells (.ofMantissaAndAccuracy (m / n) (accuracyOfFraction (m % n) n)) (m / n : ℝ) := by
  have positive : (0 : ℝ) < n := Nat.cast_pos.2 pos
  have whole : (m : ℝ) = n * (m / n : ℕ) + (m % n : ℕ) := by
    exact_mod_cast (Nat.div_add_mod m n).symm
  have quotient : (m / n : ℝ) = (m / n : ℕ) + (m % n : ℕ) / n := by
    rw [div_eq_iff positive.ne', add_mul, div_mul_cancel₀ _ positive.ne', mul_comm]
    exact whole
  unfold accuracyOfFraction
  by_cases divides : m % n = 0
  · rw [if_pos divides, quotient, divides, Nat.cast_zero, zero_div, add_zero]
    exact tells_exact _
  · have some_rest : (0 : ℝ) < (m % n : ℕ) := Nat.cast_pos.2 (Nat.pos_of_ne_zero divides)
    have small : ((m % n : ℕ) : ℝ) < n := Nat.cast_lt.2 (Nat.mod_lt m pos)
    have order : compare (2 * (m % n)) n = cmp (m / n : ℝ) ((m / n : ℕ) + 1 / 2) := by
      have scaled : StrictMono fun x : ℝ => ((m / n : ℕ) : ℝ) + x / (2 * n) :=
        fun x y h => by
          have := div_lt_div_of_pos_right h (show (0 : ℝ) < 2 * n by positivity)
          linarith
      have left : (m / n : ℝ) = (m / n : ℕ) + ((2 * (m % n) : ℕ) : ℝ) / (2 * n) := by
        rw [quotient]
        push_cast
        field_simp
      have right : ((m / n : ℕ) : ℝ) + 1 / 2 = (m / n : ℕ) + (n : ℝ) / (2 * n) := by
        field_simp
      rw [left, right, scaled.cmp_map_eq, (Nat.strictMono_cast (α := ℝ)).cmp_map_eq]
      exact (cmp_eq_compare _ _).symm
    rw [if_neg divides, order]
    refine tells_inexact ?_ ?_
    · rw [quotient]
      have := div_pos some_rest positive
      linarith
    · rw [quotient]
      have := (div_lt_one positive).2 small
      linarith

theorem le_log_div {x y : ℝ} (pos : 0 < x) (pos' : 0 < y) :
    Int.log 2 x - Int.log 2 y - 1 ≤ Int.log 2 (x / y) := by
  refine (Int.zpow_le_iff_le_log one_lt_two (div_pos pos pos')).1 ?_
  rw [le_div_iff₀ pos', Nat.cast_two]
  have above : y < 2 ^ (Int.log 2 y + 1) := by
    exact_mod_cast Int.lt_zpow_succ_log_self (b := 2) one_lt_two y
  have below : (2 : ℝ) ^ Int.log 2 x ≤ x := by
    exact_mod_cast Int.zpow_log_le_self (b := 2) one_lt_two pos
  calc (2 : ℝ) ^ (Int.log 2 x - Int.log 2 y - 1) * y
      ≤ 2 ^ (Int.log 2 x - Int.log 2 y - 1) * 2 ^ (Int.log 2 y + 1) :=
        mul_le_mul_of_nonneg_left above.le (two_zpow_pos _).le
    _ = 2 ^ Int.log 2 x := by rw [← two_zpow_add]; congr 1; ring
    _ ≤ x := below

theorem rounds_div_finite {s t : Sign} {m n : ℕ} {e k : ℤ} (pos : 0 < m) (pos' : 0 < n) :
    Rounds (UnpackedFloat.div Format.binary64 (.finite s m e pos) (.finite t n k pos'))
      (worthOf (.finite s m e pos) / worthOf (.finite t n k pos')) := by
  have positive := mul_two_zpow_pos pos e
  have positive' := mul_two_zpow_pos pos' k
  have exact_quotient : worthOf (.finite s m e pos) / worthOf (.finite t n k pos')
      = (signed (s / t) (m * 2 ^ e / (n * 2 ^ k)) : ℝ) := by
    rw [worthOf_finite, worthOf_finite, ← EReal.coe_div, cast_apply, cast_apply, signed_mul s m, signed_mul t n]
    congr 1
    cases s <;> cases t
    · exact neg_div_neg_eq _ _
    · exact neg_div _ _
    · exact div_neg _
    · rfl
  rw [exact_quotient]
  unfold UnpackedFloat.div divCore
  dsimp only
  generalize htarget : min (e - k) (Format.targetExponent Format.binary64
    (totalExponent m e - totalExponent n k)) = target
  obtain ⟨shift, hshift⟩ : ∃ shift : ℕ, e - k = target + shift := ⟨(e - k - target).toNat, by omega⟩
  rw [show (e - k - target).toNat = shift by omega]
  refine rounds_roundWithAccuracy _ (div_pos positive positive') ?_ ?_
  · have scaled : (m * 2 ^ e / (n * 2 ^ k) / 2 ^ target : ℝ) = ((m <<< shift : ℕ) : ℝ) / n := by
      rw [show e = target + shift + k by omega, two_zpow_add, two_zpow_add, zpow_natCast, Nat.shiftLeft_eq]
      have := (two_zpow_pos target).ne'
      have := (two_zpow_pos k).ne'
      push_cast
      field_simp
    rw [scaled]
    exact tells_accuracyOfFraction _ pos'
  · have log := le_log_div positive positive'
    rw [log_mul_two_zpow (Nat.cast_pos.2 pos), log_mul_two_zpow (Nat.cast_pos.2 pos'), Int.log_natCast,
      Int.log_natCast] at log
    rw [targetExponent_eq, totalExponent, totalExponent, Nat.log2_eq_log_two, Nat.log2_eq_log_two] at htarget
    unfold place
    omega

theorem worthOf_infinity_div (s t : Sign) (n : ℕ) (k : ℤ) (pos : 0 < n) :
    worthOf (.infinity s) / worthOf (.finite t n k pos) = worthOf (.infinity (s / t)) := by
  cases t with
  | positive =>
    have above := worthOf_positive_pos n k pos
    cases s
    · exact EReal.bot_div_of_pos_ne_top above (EReal.coe_ne_top _)
    · exact EReal.top_div_of_pos_ne_top above (EReal.coe_ne_top _)
  | negative =>
    have below := worthOf_negative_neg n k pos
    cases s
    · exact EReal.bot_div_of_neg_ne_bot below (EReal.coe_ne_bot _)
    · exact EReal.top_div_of_neg_ne_bot below (EReal.coe_ne_bot _)

theorem div_worthOf_infinity (v : EReal) (s : Sign) : v / worthOf (.infinity s) = 0 := by
  cases s
  · exact EReal.div_bot
  · exact EReal.div_top

/-- No quotient by zero, and none of infinities. -/
theorem rounds_div {u v : UnpackedFloat} (number : u.isNaN = false) (number' : v.isNaN = false)
    (divisor : worthOf v ≠ 0) (bound : u.isFinite = true ∨ v.isFinite = true) :
    Rounds (UnpackedFloat.div Format.binary64 u v) (worthOf u / worthOf v) := by
  cases v with
  | notANumber => cases number'
  | zero t => exact absurd rfl divisor
  | infinity t =>
    rw [div_worthOf_infinity]
    cases u with
    | notANumber => cases number
    | infinity s => rcases bound with h | h <;> cases h
    | zero s => exact .of_canonical (u := .zero _) rfl trivial
    | finite s m e pos => exact .of_canonical (u := .zero _) rfl trivial
  | finite t n k pos' =>
    cases u with
    | notANumber => cases number
    | infinity s =>
      rw [worthOf_infinity_div]
      exact .of_canonical rfl trivial
    | zero s =>
      rw [show worthOf (.zero s) = 0 from rfl, EReal.zero_div]
      exact .of_canonical (u := .zero _) rfl trivial
    | finite s m e pos => exact rounds_div_finite pos pos'

/-! ## Square roots -/

/-- What a whole root leaves over tells where the root lies. -/
theorem tells_sqrt (m : ℕ) :
    Tells (.ofMantissaAndAccuracy (Nat.sqrt m)
      (if m - Nat.sqrt m * Nat.sqrt m = 0 then .exact
        else .inexact (if m - Nat.sqrt m * Nat.sqrt m ≤ Nat.sqrt m then .lt else .gt))) √(m : ℝ) := by
  have below := Nat.sqrt_le m
  have above := Nat.lt_succ_sqrt m
  generalize Nat.sqrt m = root at below above ⊢
  obtain ⟨rest, rfl⟩ : ∃ rest, m = root * root + rest := ⟨m - root * root, by omega⟩
  rw [Nat.add_sub_cancel_left]
  have nonneg : (0 : ℝ) ≤ root := Nat.cast_nonneg root
  by_cases square : rest = 0
  · rw [if_pos square, square, add_zero, Nat.cast_mul, Real.sqrt_mul_self nonneg]
    exact tells_exact root
  · have some_rest : (1 : ℝ) ≤ rest := by exact_mod_cast Nat.pos_of_ne_zero square
    have lower : (root : ℝ) < √((root * root + rest : ℕ) : ℝ) := by
      rw [Real.lt_sqrt nonneg]
      push_cast
      nlinarith
    have upper : √((root * root + rest : ℕ) : ℝ) < root + 1 := by
      rw [Real.sqrt_lt' (by positivity)]
      have inside : ((root * root + rest : ℕ) : ℝ) < ((root + 1) * (root + 1) : ℕ) := Nat.cast_lt.2 above
      push_cast at inside ⊢
      nlinarith
    have order : (if rest ≤ root then Ordering.lt else .gt)
        = cmp √((root * root + rest : ℕ) : ℝ) (root + 1 / 2) := by
      by_cases small : rest ≤ root
      · rw [if_pos small, (cmp_eq_lt_iff _ _).2]
        rw [Real.sqrt_lt' (by positivity)]
        have := (Nat.cast_le (α := ℝ)).2 small
        push_cast
        nlinarith
      · rw [if_neg small, (cmp_eq_gt_iff _ _).2]
        rw [Real.lt_sqrt (by positivity)]
        have : ((root + 1 : ℕ) : ℝ) ≤ rest := Nat.cast_le.2 (by omega)
        push_cast at this ⊢
        nlinarith
    rw [if_neg square, order]
    exact tells_inexact lower upper

theorem rounds_sqrt_finite {m : ℕ} {e : ℤ} (pos : 0 < m) :
    Rounds (UnpackedFloat.sqrt Format.binary64 (.finite .positive m e pos)) (√(m * 2 ^ e) : ℝ) := by
  have positive := mul_two_zpow_pos pos e
  unfold UnpackedFloat.sqrt sqrtCore
  dsimp only
  generalize htarget : min (e.ediv 2) (Format.targetExponent Format.binary64
    ((totalExponent m e + 1).ediv 2)) = target
  have half : 2 * target ≤ e := by
    have : target ≤ e / 2 := htarget ▸ min_le_left _ _
    omega
  obtain ⟨shift, hshift⟩ : ∃ shift : ℕ, e = 2 * target + shift := ⟨(e - 2 * target).toNat, by omega⟩
  rw [show (e - 2 * target).toNat = shift by omega]
  refine rounds_roundWithAccuracy .positive (Real.sqrt_pos.2 positive) ?_ ?_
  · have scaled : (√(m * 2 ^ e) / 2 ^ target : ℝ) = √((m <<< shift : ℕ) : ℝ) := by
      have square : (m * 2 ^ e : ℝ) = ((m <<< shift : ℕ) : ℝ) * (2 ^ target * 2 ^ target) := by
        rw [← two_zpow_add, hshift, two_zpow_add, zpow_natCast, Nat.shiftLeft_eq, two_mul]
        push_cast
        ring
      rw [square, Real.sqrt_mul (Nat.cast_nonneg _), Real.sqrt_mul_self (two_zpow_pos target).le,
        mul_div_cancel_right₀ _ (two_zpow_pos target).ne']
    rw [scaled]
    exact tells_sqrt _
  · have log : (totalExponent m e + 1) / 2 - 1 ≤ Int.log 2 √(m * 2 ^ e : ℝ) := by
      refine (Int.zpow_le_iff_le_log one_lt_two (Real.sqrt_pos.2 positive)).1 ?_
      rw [Nat.cast_two]
      refine Real.le_sqrt_of_sq_le ?_
      rw [← zpow_natCast, ← zpow_mul]
      have lower : (2 : ℝ) ^ Int.log 2 (m * 2 ^ e : ℝ) ≤ m * 2 ^ e := by
        exact_mod_cast Int.zpow_log_le_self (b := 2) one_lt_two positive
      refine (two_zpow_le ?_).trans lower
      rw [log_mul_two_zpow (Nat.cast_pos.2 pos), Int.log_natCast, totalExponent, Nat.log2_eq_log_two]
      push_cast
      omega
    have bound : target ≤ max ((totalExponent m e + 1) / 2 - 53) (-1074) := htarget ▸ min_le_right _ _
    unfold place
    omega

theorem eq_infinity_of_top {u : UnpackedFloat} (top : worthOf u = ⊤) : u = .infinity .positive := by
  cases u with
  | infinity s =>
    cases s with
    | positive => rfl
    | negative => cases top
  | finite s m e pos => exact absurd top (EReal.coe_ne_top _)
  | _ => cases top

/-! ## Floats -/

/-- The float is a number, and stands for the value. -/
structure Stands (x : Float) (v : EReal) : Prop where
  number : x.isNaN = false
  worth_eq : worth x = v

theorem stands_worth {x : Float} (number : x.isNaN = false) : Stands x (worth x) := ⟨number, rfl⟩

theorem Rounds.stands {u : UnpackedFloat} {v : EReal} (h : Rounds u v) : Stands (packed u) (rounded v) :=
  ⟨by rw [isNaN_packed, h.number], by rw [worth_packed h.canonical, h.rounded_eq]⟩

theorem exists_stands_of_isFinite {x : Float} (h : x.isFinite = true) :
    ∃ r : ℝ, Stands x r ∧ Fits r ∧ |r| < limit := by
  obtain ⟨r, same, fits, small⟩ := exists_real_of_isFinite h
  exact ⟨r, ⟨isNaN_of_isFinite h, same⟩, fits, small⟩

namespace Stands

variable {x y : Float} {a b : EReal}

theorem isFinite {r : ℝ} (hx : Stands x r) : x.isFinite = true := by
  rw [isFinite_iff_worth hx.number, hx.worth_eq]
  exact ⟨EReal.coe_ne_top r, EReal.coe_ne_bot r⟩

theorem isFinite_iff_of_nonneg (hx : Stands x a) (nonneg : 0 ≤ a) : x.isFinite = true ↔ a ≠ ⊤ := by
  rw [isFinite_iff_worth hx.number, hx.worth_eq]
  exact and_iff_left (EReal.bot_lt_zero.trans_le nonneg).ne'

theorem isFinite_of_between {r s : ℝ} (hx : Stands x a) (ge : r ≤ a) (le : a ≤ s) : x.isFinite = true := by
  rw [isFinite_iff_worth hx.number, hx.worth_eq]
  exact ⟨(le.trans_lt (EReal.coe_lt_top s)).ne, ((EReal.bot_lt_coe r).trans_le ge).ne'⟩

theorem lt_iff (hx : Stands x a) (hy : Stands y b) : x < y ↔ a < b := by
  rw [lt_iff_worth hx.number hy.number, hx.worth_eq, hy.worth_eq]

theorem le_iff (hx : Stands x a) (hy : Stands y b) : x ≤ y ↔ a ≤ b := by
  rw [le_iff_worth hx.number hy.number, hx.worth_eq, hy.worth_eq]

theorem beq_iff (hx : Stands x a) (hy : Stands y b) : (x == y) = true ↔ a = b := by
  rw [beq_iff_worth hx.number hy.number, hx.worth_eq, hy.worth_eq]

theorem neg (hx : Stands x a) : Stands (-x) (-a) :=
  ⟨isNaN_neg hx.number, by rw [worth_neg, hx.worth_eq]⟩

theorem rounded_eq (hx : Stands x a) : rounded a = a := by
  rw [← hx.worth_eq, rounded_worth]

theorem add (hx : Stands x a) (hy : Stands y b) (first : a ≠ ⊤ ∨ b ≠ ⊥) (second : a ≠ ⊥ ∨ b ≠ ⊤) :
    Stands (x + y) (rounded (a + b)) := by
  obtain ⟨number, rfl⟩ := hx
  obtain ⟨number', rfl⟩ := hy
  exact (rounds_add number number' (canonical_parts x) (canonical_parts y) first second).stands

theorem sub (hx : Stands x a) (hy : Stands y b) (first : a ≠ ⊤ ∨ b ≠ ⊤) (second : a ≠ ⊥ ∨ b ≠ ⊥) :
    Stands (x - y) (rounded (a - b)) := by
  obtain ⟨number, rfl⟩ := hx
  obtain ⟨number', rfl⟩ := hy
  exact (rounds_sub number number' (canonical_parts x) (canonical_parts y) first second).stands

theorem mul (hx : Stands x a) (hy : Stands y b) (first : a = 0 → y.isFinite = true)
    (second : b = 0 → x.isFinite = true) : Stands (x * y) (rounded (a * b)) := by
  obtain ⟨number, rfl⟩ := hx
  obtain ⟨number', rfl⟩ := hy
  exact (rounds_mul number number' (canonical_parts x) (canonical_parts y) first second).stands

theorem div (hx : Stands x a) (hy : Stands y b) (divisor : b ≠ 0)
    (bound : x.isFinite = true ∨ y.isFinite = true) : Stands (x / y) (rounded (a / b)) := by
  obtain ⟨number, rfl⟩ := hx
  obtain ⟨number', rfl⟩ := hy
  exact (rounds_div number number' divisor bound).stands

/-- The root of what is not negative, the opposite of zero included. -/
theorem sqrt {r : ℝ} (hx : Stands x r) (nonneg : 0 ≤ r) : Stands x.sqrt (rounded (√r : ℝ)) := by
  obtain ⟨number, same⟩ := hx
  suffices root : Rounds (UnpackedFloat.sqrt Format.binary64 (parts x)) (√r : ℝ) from root.stands
  rw [worth] at same
  change (parts x).isNaN = false at number
  generalize parts x = u at number same ⊢
  cases u with
  | notANumber => cases number
  | infinity s => cases s <;> cases same
  | zero s =>
    have zero : r = 0 := (EReal.coe_eq_zero.1 same.symm)
    rw [zero, Real.sqrt_zero]
    exact .of_canonical (u := .zero s) rfl trivial
  | finite s m e pos =>
    cases s with
    | negative =>
      have below := worthOf_negative_neg m e pos
      rw [same, EReal.coe_neg'] at below
      linarith
    | positive =>
      rw [worthOf_positive, EReal.coe_eq_coe_iff] at same
      rw [← same]
      exact rounds_sqrt_finite pos

end Stands

theorem sqrt_top {x : Float} (hx : Stands x ⊤) : Stands x.sqrt ⊤ := by
  have infinite : parts x = .infinity .positive := eq_infinity_of_top hx.worth_eq
  suffices root : Rounds (UnpackedFloat.sqrt Format.binary64 (parts x)) ⊤ from rounded_top ▸ root.stands
  rw [infinite]
  exact .of_canonical (u := .infinity .positive) rfl trivial

/-! ## No result -/

theorem parts_of_isNaN {x : Float} (h : x.isNaN = true) : parts x = .notANumber := by
  change (parts x).isNaN = true at h
  revert h
  cases parts x with
  | notANumber => exact fun _ => rfl
  | _ => exact nofun

theorem worth_of_isNaN {x : Float} (h : x.isNaN = true) : worth x = 0 := by
  rw [worth, parts_of_isNaN h]
  rfl

theorem beq_of_isNaN {x : Float} (h : x.isNaN = true) (y : Float) : (x == y) = false := by
  change (parts x).beq (parts y) = false
  rw [parts_of_isNaN h]
  rfl

theorem isNaN_of_beq {x y : Float} (h : (x == y) = true) : x.isNaN = false := by
  rw [← Bool.not_eq_true]
  exact fun undefined => Bool.false_ne_true ((beq_of_isNaN undefined y).symm.trans h)

/-- An operation that has no result on what is no number. -/
def Strict (op : UnpackedFloat → UnpackedFloat → UnpackedFloat) : Prop :=
  ∀ u, op .notANumber u = .notANumber ∧ op u .notANumber = .notANumber

theorem strict_add : Strict (UnpackedFloat.add Format.binary64) := fun u => ⟨rfl, by cases u <;> rfl⟩

theorem strict_sub : Strict (UnpackedFloat.sub Format.binary64) := fun u => ⟨rfl, by cases u <;> rfl⟩

theorem strict_mul : Strict (UnpackedFloat.mul Format.binary64) := fun u => ⟨rfl, by cases u <;> rfl⟩

theorem strict_div : Strict (UnpackedFloat.div Format.binary64) := fun u => ⟨rfl, by cases u <;> rfl⟩

/-- No result of what is no number is a number. -/
theorem Strict.undefined {op : UnpackedFloat → UnpackedFloat → UnpackedFloat} (strict : Strict op) {x y : Float}
    (h : x.isNaN = true ∨ y.isNaN = true) : (packed (op (parts x) (parts y))).isNaN = true := by
  rw [isNaN_packed]
  rcases h with undefined | undefined
  · rw [parts_of_isNaN undefined, (strict _).1]
    rfl
  · rw [parts_of_isNaN undefined, (strict _).2]
    rfl

/-- A result that is a number is of numbers. -/
theorem Strict.numbers {op : UnpackedFloat → UnpackedFloat → UnpackedFloat} (strict : Strict op) {x y : Float}
    (h : (packed (op (parts x) (parts y))).isNaN = false) : x.isNaN = false ∧ y.isNaN = false := by
  rw [← Bool.not_eq_true, ← Bool.not_eq_true, ← not_or]
  intro undefined
  rw [strict.undefined undefined] at h
  cases h

theorem exists_eq_infinity {u : UnpackedFloat} (number : u.isNaN = false) (infinite : ¬ u.isFinite = true) :
    ∃ s, u = .infinity s := by
  cases u with
  | infinity s => exact ⟨s, rfl⟩
  | notANumber => cases number
  | zero s => exact absurd rfl infinite
  | finite s m e pos => exact absurd rfl infinite

theorem exists_eq_zero {u : UnpackedFloat} (number : u.isNaN = false) (zero : worthOf u = 0) :
    ∃ s, u = .zero s := by
  cases u with
  | zero s => exact ⟨s, rfl⟩
  | notANumber => cases number
  | infinity s => cases s <;> cases zero
  | finite s m e pos =>
    cases s with
    | negative => exact absurd zero (worthOf_negative_neg m e pos).ne
    | positive => exact absurd zero (worthOf_positive_pos m e pos).ne'

theorem eq_infinity_of_bot {u : UnpackedFloat} (bot : worthOf u = ⊥) : u = .infinity .negative := by
  cases u with
  | infinity s =>
    cases s with
    | positive => cases bot
    | negative => rfl
  | finite s m e pos => exact absurd bot (EReal.coe_ne_bot _)
  | _ => cases bot

section Defined

variable {x y : Float}

/-- A sum that is a number is the exact one, rounded. -/
theorem stands_add_of_number (h : (x + y).isNaN = false) : Stands (x + y) (rounded (worth x + worth y)) := by
  obtain ⟨number, number'⟩ := strict_add.numbers h
  change (packed (UnpackedFloat.add Format.binary64 (parts x) (parts y))).isNaN = false at h
  rw [isNaN_packed] at h
  apply (stands_worth number).add (stands_worth number')
  · by_contra! opposite
    rw [eq_infinity_of_top opposite.1, eq_infinity_of_bot opposite.2] at h
    cases h
  · by_contra! opposite
    rw [eq_infinity_of_bot opposite.1, eq_infinity_of_top opposite.2] at h
    cases h

/-- A product that is a number is the exact one, rounded. -/
theorem stands_mul_of_number (h : (x * y).isNaN = false) : Stands (x * y) (rounded (worth x * worth y)) := by
  obtain ⟨number, number'⟩ := strict_mul.numbers h
  change (packed (UnpackedFloat.mul Format.binary64 (parts x) (parts y))).isNaN = false at h
  rw [isNaN_packed] at h
  apply (stands_worth number).mul (stands_worth number')
  · intro zero
    by_contra infinite
    obtain ⟨s, hs⟩ := exists_eq_zero (u := parts x) number zero
    obtain ⟨t, ht⟩ := exists_eq_infinity (u := parts y) number' infinite
    rw [hs, ht] at h
    cases h
  · intro zero
    by_contra infinite
    obtain ⟨s, hs⟩ := exists_eq_infinity (u := parts x) number infinite
    obtain ⟨t, ht⟩ := exists_eq_zero (u := parts y) number' zero
    rw [hs, ht] at h
    cases h

/-- No quotient of infinities is a number. -/
theorem finite_of_div (h : (x / y).isNaN = false) : x.isFinite = true ∨ y.isFinite = true := by
  obtain ⟨number, number'⟩ := strict_div.numbers h
  change (packed (UnpackedFloat.div Format.binary64 (parts x) (parts y))).isNaN = false at h
  rw [isNaN_packed] at h
  by_contra infinite
  rw [not_or] at infinite
  obtain ⟨s, hs⟩ := exists_eq_infinity (u := parts x) number infinite.1
  obtain ⟨t, ht⟩ := exists_eq_infinity (u := parts y) number' infinite.2
  rw [hs, ht] at h
  cases h

/-- A quotient by what is not zero is the exact one, rounded, if it is a number. -/
theorem stands_div_of_number (h : (x / y).isNaN = false) (divisor : worth y ≠ 0) :
    Stands (x / y) (rounded (worth x / worth y)) := by
  obtain ⟨number, number'⟩ := strict_div.numbers h
  exact (stands_worth number).div (stands_worth number') divisor (finite_of_div h)

end Defined

/-! ## Literals and counts -/

/-- A literal stands for the significand and the exponent that it is read as. -/
theorem stands_literal {x : Float} {m : ℕ} {e : ℤ} (pos : 0 < m)
    (places : m < 2 ^ 53 ∧ -1074 ≤ e ∧ (2 ^ 52 ≤ m ∨ e = -1074)) (most : e ≤ 971)
    (read : x = packed (.finite .positive m e pos)) : Stands x (m * 2 ^ e : ℝ) := by
  have canonical : Canonical (.finite .positive m e pos) := places
  have same := unpack_pack_of_inRange canonical most
  rw [read]
  refine ⟨isNaN_packed _, ?_⟩
  rw [worth_packed canonical, ← worthOf_unpack_pack canonical, same, worthOf_positive]

theorem stands_zero : Stands 0.0 0 := ⟨rfl, rfl⟩

theorem stands_one : Stands 1.0 1 := by
  have stands := stands_literal (x := 1.0) (m := 2 ^ 52) (e := -52) (by norm_num) (by norm_num) (by norm_num) rfl
  norm_num at stands
  exact stands

theorem stands_two : Stands 2.0 2 := by
  have stands := stands_literal (x := 2.0) (m := 2 ^ 52) (e := -51) (by norm_num) (by norm_num) (by norm_num) rfl
  norm_num at stands
  exact stands

theorem stands_half : Stands 0.5 (1 / 2 : ℝ) := by
  have stands := stands_literal (x := 0.5) (m := 2 ^ 52) (e := -53) (by norm_num) (by norm_num) (by norm_num) rfl
  norm_num at stands ⊢
  exact stands

theorem stands_hundred : Stands 100.0 100 := by
  have stands := stands_literal (x := 100.0) (m := 100 * 2 ^ 46) (e := -46) (by norm_num) (by norm_num)
    (by norm_num) rfl
  norm_num at stands
  exact stands

theorem natCast_lt_limit {n : ℕ} (few : n ≤ 2 ^ 53) : |(n : ℝ)| < limit := by
  rw [Nat.abs_cast]
  calc (n : ℝ) ≤ 2 ^ (53 : ℤ) := by exact_mod_cast few
    _ < limit := zpow_lt_zpow_right₀ one_lt_two (by norm_num)

theorem rounded_natCast {n : ℕ} (few : n ≤ 2 ^ 53) : rounded n = n := by
  rw [← EReal.coe_natCast, rounded_of_fits (fits_natCast few) (natCast_lt_limit few)]

/-- A count that is too great for its own places is scaled before it is rounded. -/
theorem rounds_ofScientific {n : ℕ} (large : 2 ^ 53 ≤ n) :
    Rounds (UnpackedFloat.ofScientific Format.binary64 n 0) n := by
  have pos : 0 < n := lt_of_lt_of_le (by norm_num) large
  have places : 53 ≤ Nat.log 2 n := (Nat.le_log_iff_pow_le (by norm_num) pos.ne').2 large
  have scaled : 0 < n <<< Format.binary64.mantissaBits := by
    rw [Nat.shiftLeft_eq]
    positivity
  have value : worthOf (.finite .positive (n <<< Format.binary64.mantissaBits) (-53) scaled)
      * worthOf (.finite .positive (10 ^ (0 : ℤ).toNat) 0 (by norm_num)) = n := by
    rw [worthOf_positive, worthOf_positive, ← EReal.coe_mul, ← EReal.coe_natCast, Nat.shiftLeft_eq,
      show Format.binary64.mantissaBits = 53 from rfl]
    congr 1
    norm_num
    ring
  unfold UnpackedFloat.ofScientific
  rw [dif_neg pos.ne', if_neg (by norm_num), if_neg (by push_cast; omega), if_pos le_rfl, ← value]
  refine rounds_mul_of_le scaled (by norm_num) ?_
  have same : (((n <<< Format.binary64.mantissaBits) * 10 ^ (0 : ℤ).toNat : ℕ) : ℝ) * 2 ^ (-53 + 0 : ℤ) = n := by
    rw [Nat.shiftLeft_eq, show Format.binary64.mantissaBits = 53 from rfl]
    norm_num
    ring
  have bits : (-(Format.binary64.mantissaBits : ℤ) : ℤ) = -53 := rfl
  rw [bits, same, place, Int.log_natCast]
  omega

/-- A count is turned into the float that it is rounded to. -/
theorem stands_toFloat (n : ℕ) : Stands n.toFloat (rounded n) := by
  change Stands (Float.ofScientific n false 0) (rounded n)
  unfold Float.ofScientific
  split
  · rename_i small
    have word : n.toUInt64.toNat = n := Nat.mod_eq_of_lt (small.1.trans (by norm_num))
    have count : Stands n.toUInt64.toFloat (rounded n) := by
      have rounds := (rounds_normalize n 0 .positive).stands
      rw [zpow_zero, mul_one] at rounds
      change Stands (packed (UnpackedFloat.normalize Format.binary64 n.toUInt64.toNat 0 .positive)) _
      rw [word]
      exact_mod_cast rounds
    have finite : n.toUInt64.toFloat.isFinite = true := by
      rw [rounded_natCast small.1.le, ← EReal.coe_natCast] at count
      exact count.isFinite
    have product := count.mul stands_one (fun _ => stands_one.isFinite) (fun _ => finite)
    rw [mul_one, ← count.worth_eq, rounded_worth, count.worth_eq] at product
    exact product
  · rename_i large
    exact (rounds_ofScientific (by omega)).stands

end FxPulse.Number
