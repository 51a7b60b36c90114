import FxPulse.Number.Sample
import FxPulse.Proofs.Number.Arithmetic

/-!
# `Proofs/Number/Sample.lean` — bounds of sums, means and extremes

A sum of many floats is rounded at each step, and may drift. Bounds do not, as long as they are floats
themselves: if no multiple of the bound is rounded, up to the number of summands, then

> a sum of floats up to a bound is at most as many times the bound (`upTo_foldl_add`), and its mean at most the
> bound (`UpTo.div_count`).

Extremes are not rounded at all; the least and the greatest of some numbers are what they are in exact
arithmetic (`stands_least`, `stands_greatest`).
-/

set_option autoImplicit false

namespace FxPulse.Number

/-! ## Counts -/

theorem stands_count {n : ℕ} (few : n ≤ 2 ^ 53) : Stands n.toFloat n :=
  rounded_natCast few ▸ stands_toFloat n

theorem worth_toFloat_pos {n : ℕ} (pos : 0 < n) : 0 < worth n.toFloat := by
  rw [(stands_toFloat n).worth_eq]
  have one : rounded 1 = 1 := stands_one.rounded_eq
  refine lt_of_lt_of_le zero_lt_one (one.symm.trans_le (rounded_mono ?_))
  exact_mod_cast pos

theorem isFinite_toFloat {n : ℕ} (room : n ≤ 2 ^ 60) : n.toFloat.isFinite = true := by
  have count := stands_toFloat n
  have most : rounded n ≤ ((2 ^ (60 : ℤ) : ℝ) : EReal) := by
    refine (rounded_mono ?_).trans_eq (rounded_two_zpow (by norm_num) (by norm_num))
    rw [← EReal.coe_natCast, EReal.coe_le_coe_iff]
    exact_mod_cast room
  exact count.isFinite_of_between (r := 0) (rounded_nonneg (by exact_mod_cast Nat.zero_le n)) most

/-! ## Numbers from zero to a bound -/

/-- A number from zero to a bound. -/
def UpTo (x : Float) (b : EReal) : Prop := ∃ v, Stands x v ∧ 0 ≤ v ∧ v ≤ b

theorem Stands.upTo {x : Float} {v b : EReal} (hx : Stands x v) (nonneg : 0 ≤ v) (h : v ≤ b) : UpTo x b :=
  ⟨v, hx, nonneg, h⟩

namespace UpTo

variable {x y : Float} {a b c : EReal}

theorem number (hx : UpTo x a) : x.isNaN = false := by
  obtain ⟨v, stands, -⟩ := hx
  exact stands.number

theorem mono (hx : UpTo x a) (h : a ≤ b) : UpTo x b := by
  obtain ⟨v, stands, nonneg, le⟩ := hx
  exact ⟨v, stands, nonneg, le.trans h⟩

theorem isFinite {r : ℝ} (hx : UpTo x r) : x.isFinite = true := by
  obtain ⟨v, stands, nonneg, le⟩ := hx
  exact stands.isFinite_of_between (r := 0) nonneg le

theorem add (hx : UpTo x a) (hy : UpTo y b) (fixed : rounded c = c) (h : a + b ≤ c) : UpTo (x + y) c := by
  obtain ⟨v, stands, nonneg, le⟩ := hx
  obtain ⟨w, stands', nonneg', le'⟩ := hy
  have sum := stands.add stands' (.inr (EReal.bot_lt_zero.trans_le nonneg').ne')
    (.inl (EReal.bot_lt_zero.trans_le nonneg).ne')
  exact ⟨_, sum, rounded_nonneg (add_nonneg nonneg nonneg'),
    (rounded_mono ((add_le_add le le').trans h)).trans_eq fixed⟩

theorem mul {r s t : ℝ} (hx : UpTo x r) (hy : UpTo y s) (fixed : rounded t = t) (h : r * s ≤ t) :
    UpTo (x * y) t := by
  have finite := hx.isFinite
  have finite' := hy.isFinite
  obtain ⟨v, stands, nonneg, le⟩ := hx
  obtain ⟨w, stands', nonneg', le'⟩ := hy
  have product := stands.mul stands' (fun _ => finite') (fun _ => finite)
  refine ⟨_, product, rounded_nonneg (mul_nonneg nonneg nonneg'),
    (rounded_mono (le_trans (b := ((r * s : ℝ) : EReal)) ?_ (EReal.coe_le_coe_iff.2 h))).trans_eq fixed⟩
  rw [EReal.coe_mul]
  exact mul_le_mul le le' nonneg' (nonneg.trans le)

/-- As much of so many times a bound. -/
theorem div_count {n : ℕ} (pos : 0 < n) (few : n ≤ 2 ^ 53) (hx : UpTo x (n * c)) (fixed : rounded c = c) :
    UpTo (x / n.toFloat) c := by
  obtain ⟨v, stands, nonneg, le⟩ := hx
  have count := stands_count few
  have pos' : (0 : EReal) < n := by exact_mod_cast pos
  have quotient := stands.div count pos'.ne' (.inr (count.isFinite (r := n)))
  refine ⟨_, quotient, rounded_nonneg (EReal.div_nonneg nonneg pos'.le),
    (rounded_mono ?_).trans_eq fixed⟩
  rwa [EReal.div_le_iff_le_mul pos' (EReal.natCast_ne_top n)]

end UpTo

/-! ### Shares -/

theorem div_le_one_of_le {a b : EReal} (pos : 0 < b) (h : a ≤ b) : a / b ≤ 1 := by
  by_cases top : b = ⊤
  · rw [top, EReal.div_top]
    exact zero_le_one
  · rwa [EReal.div_le_iff_le_mul pos top, mul_one]

/-- A share of a whole is at most one. -/
theorem upTo_share {x y : Float} {a b : EReal} (hx : Stands x a) (hy : Stands y b) (nonneg : 0 ≤ a) (h : a ≤ b)
    (pos : 0 < b) (finite : x.isFinite = true) : UpTo (x / y) 1 := by
  have quotient := hx.div hy pos.ne' (.inl finite)
  exact ⟨_, quotient, rounded_nonneg (EReal.div_nonneg nonneg pos.le),
    (rounded_mono (div_le_one_of_le pos h)).trans_eq stands_one.rounded_eq⟩

/-! ## Signs -/

section Signs

variable {x y : Float} (hx : 0 ≤ worth x)
include hx

theorem worth_add_nonneg (hy : 0 ≤ worth y) : 0 ≤ worth (x + y) := by
  cases number : (x + y).isNaN with
  | true => exact (worth_of_isNaN number).ge
  | false => exact (stands_add_of_number number).worth_eq ▸ rounded_nonneg (add_nonneg hx hy)

theorem worth_mul_nonneg (hy : 0 ≤ worth y) : 0 ≤ worth (x * y) := by
  cases number : (x * y).isNaN with
  | true => exact (worth_of_isNaN number).ge
  | false => exact (stands_mul_of_number number).worth_eq ▸ rounded_nonneg (mul_nonneg hx hy)

theorem worth_div_nonneg (pos : 0 < worth y) : 0 ≤ worth (x / y) := by
  cases number : (x / y).isNaN with
  | true => exact (worth_of_isNaN number).ge
  | false =>
    exact (stands_div_of_number number pos.ne').worth_eq ▸ rounded_nonneg (EReal.div_nonneg hx pos.le)

end Signs

/-! ## Sums -/

/-- No multiple of a bound is rounded, up to some number. -/
def Repeats (c : EReal) (n : ℕ) : Prop := ∀ k ≤ n, rounded (k * c) = k * c

/-- **A sum is at most as many times the bound as it has summands.** -/
theorem upTo_foldl_add {c : EReal} {xs : List Float} (repeats : Repeats c xs.length)
    (each : ∀ x ∈ xs, UpTo x c) {start : Float} (zero : Stands start 0) :
    UpTo (xs.foldl (· + ·) start) (xs.length * c) := by
  induction xs using List.reverseRecOn with
  | nil => exact zero.upTo le_rfl (by simp)
  | append_singleton front x ih =>
    rw [List.length_append, List.length_singleton] at repeats ⊢
    rw [List.foldl_concat]
    have before := ih (fun k hk => repeats k (by omega)) fun y mem => each y (List.mem_append_left _ mem)
    refine before.add (each x (List.mem_append_right _ (List.mem_singleton_self x))) (repeats _ le_rfl) ?_
    push_cast
    rw [EReal.right_distrib_of_nonneg (by exact_mod_cast Nat.zero_le _) zero_le_one, one_mul]

theorem repeats_zero (n : ℕ) : Repeats ((0 : ℝ) : EReal) n := fun k _ => by
  rw [EReal.coe_zero, mul_zero, rounded_zero]

theorem repeats_intCast_mul {m e : ℤ} (least : -1074 ≤ e) (most : e ≤ 970) {n : ℕ}
    (few : n * |m| ≤ 2 ^ 53) : Repeats ((m * 2 ^ e : ℝ) : EReal) n := by
  intro k hk
  have fewer : |k * m| ≤ 2 ^ 53 := by
    rw [abs_mul, Nat.abs_cast]
    exact (mul_le_mul_of_nonneg_right (by exact_mod_cast hk) (abs_nonneg m)).trans few
  have value : (k : EReal) * ((m * 2 ^ e : ℝ) : EReal) = (((k * m : ℤ) : ℝ) * 2 ^ e : ℝ) := by
    rw [← EReal.coe_natCast, ← EReal.coe_mul]
    congr 1
    push_cast
    ring
  rw [value]
  apply rounded_of_fits ⟨k * m, e, fewer, least, rfl⟩
  rw [abs_mul, abs_of_pos (two_zpow_pos e), ← Int.cast_abs, limit_eq]
  calc ((|k * m| : ℤ) : ℝ) * 2 ^ e ≤ 2 ^ 53 * 2 ^ e :=
        mul_le_mul_of_nonneg_right (by exact_mod_cast fewer) (two_zpow_pos e).le
    _ < 2 ^ 53 * 2 ^ (971 : ℤ) :=
        mul_lt_mul_of_pos_left (zpow_lt_zpow_right₀ one_lt_two (by omega)) (by positivity)

/-- The opposite of zero, which sums start from. -/
theorem stands_sum_nil : Stands (sum []) 0 := neg_zero (G := EReal) ▸ stands_zero.neg

/-- A sum of copies of a number is exact if none of its multiples is rounded. -/
theorem stands_sum_replicate {x : Float} {r : ℝ} (hx : Stands x r) {n : ℕ} (repeats : Repeats r n) :
    Stands (sum (List.replicate n x)) (n * r) := by
  induction n with
  | zero => simpa using stands_sum_nil
  | succ n ih =>
    have before := ih fun k hk => repeats k (hk.trans n.le_succ)
    have next := before.add hx (.inr (EReal.coe_ne_bot r)) (.inr (EReal.coe_ne_top r))
    rw [sum] at next ⊢
    rw [List.replicate_succ', List.foldl_concat]
    have value : (n * r : EReal) + r = (n + 1 : ℕ) * r := by
      rw [Nat.cast_succ, EReal.right_distrib_of_nonneg (by exact_mod_cast Nat.zero_le n) zero_le_one, one_mul]
    rwa [value, repeats _ le_rfl] at next

/-- A sum of what is at least some bound is at least as many times the bound. -/
theorem le_sum {b : ℝ} (nonneg : 0 ≤ b) {xs : List Float} (repeats : Repeats b xs.length)
    (each : ∀ x ∈ xs, x.isNaN = false ∧ b ≤ worth x) :
    (sum xs).isNaN = false ∧ xs.length * b ≤ worth (sum xs) := by
  induction xs using List.reverseRecOn with
  | nil => exact ⟨stands_sum_nil.number, by simpa using stands_sum_nil.worth_eq.ge⟩
  | append_singleton front x ih =>
    rw [List.length_append, List.length_singleton] at repeats ⊢
    obtain ⟨number, le⟩ := ih (fun k hk => repeats k (by omega)) fun y mem => each y (List.mem_append_left _ mem)
    obtain ⟨number', le'⟩ := each x (List.mem_append_right _ (List.mem_singleton_self x))
    have front_nonneg : (0 : EReal) ≤ front.length * b :=
      mul_nonneg (by exact_mod_cast Nat.zero_le _) (EReal.coe_nonneg.2 nonneg)
    have next := (stands_worth number).add (stands_worth number')
      (.inr ((EReal.bot_lt_coe b).trans_le le').ne')
      (.inl ((EReal.bot_lt_zero.trans_le front_nonneg).trans_le le).ne')
    rw [sum] at next ⊢
    rw [List.foldl_concat]
    refine ⟨next.number, ?_⟩
    rw [next.worth_eq, ← repeats _ le_rfl]
    refine rounded_mono (le_trans (le_of_eq ?_) (add_le_add le le'))
    rw [Nat.cast_succ, EReal.right_distrib_of_nonneg (by exact_mod_cast Nat.zero_le _) zero_le_one, one_mul]

/-- A sum of finite numbers is a number, even if it is too great for a float. -/
theorem isNaN_sum {xs : List Float} (finite : ∀ x ∈ xs, x.isFinite = true) : (sum xs).isNaN = false := by
  refine List.foldlRecOn (motive := (Float.isNaN · = false)) _ _ stands_sum_nil.number fun total number x mem => ?_
  obtain ⟨r, stands, -⟩ := exists_stands_of_isFinite (finite x mem)
  exact ((stands_worth number).add stands (.inr (EReal.coe_ne_bot r)) (.inr (EReal.coe_ne_top r))).number

/-- **A sum of something that is no number is no number.** -/
theorem isNaN_foldl_add {xs : List Float} {start : Float}
    (h : start.isNaN = true ∨ ∃ x ∈ xs, x.isNaN = true) : (xs.foldl (· + ·) start).isNaN = true := by
  induction xs generalizing start with
  | nil =>
    rcases h with undefined | ⟨x, mem, -⟩
    · exact undefined
    · cases mem
  | cons first rest ih =>
    rw [List.foldl_cons]
    apply ih
    rcases h with undefined | ⟨x, mem, undefined⟩
    · exact .inl (strict_add.undefined (.inl undefined))
    · rcases List.mem_cons.1 mem with rfl | mem
      · exact .inl (strict_add.undefined (.inr undefined))
      · exact .inr ⟨x, mem, undefined⟩

/-! ## Means -/

theorem mean_of_ne_nil {xs : List Float} (some_value : xs ≠ []) : mean xs = sum xs / xs.length.toFloat := by
  rw [mean, if_neg (by rwa [List.isEmpty_iff])]

theorem isNaN_mean {xs : List Float} {x : Float} (mem : x ∈ xs) (undefined : x.isNaN = true) :
    (mean xs).isNaN = true := by
  rw [mean_of_ne_nil (List.ne_nil_of_mem mem)]
  exact strict_div.undefined (.inl (isNaN_foldl_add (.inr ⟨x, mem, undefined⟩)))

/-- **A mean is at most the bound of what it is taken of.** -/
theorem upTo_mean {c : EReal} {xs : List Float} (some_value : xs ≠ []) (few : xs.length ≤ 2 ^ 53)
    (repeats : Repeats c xs.length) (each : ∀ x ∈ xs, UpTo x c) : UpTo (mean xs) c := by
  have pos : 0 < xs.length := List.length_pos_iff.2 some_value
  have once : rounded c = c := by simpa using repeats 1 pos
  rw [mean_of_ne_nil some_value]
  exact (upTo_foldl_add repeats each stands_sum_nil).div_count pos few once

/-! ## Extremes -/

theorem stands_lesser {x y : Float} {a b : EReal} (hx : Stands x a) (hy : Stands y b) :
    Stands (lesser x y) (min a b) := by
  unfold lesser
  rw [hy.number, Bool.or_false]
  by_cases less : x < y
  · rw [if_pos (decide_eq_true less), min_eq_left ((hx.lt_iff hy).1 less).le]
    exact hx
  · rw [if_neg (by simpa using less), min_eq_right (not_lt.1 (mt (hx.lt_iff hy).2 less))]
    exact hy

theorem stands_greater {x y : Float} {a b : EReal} (hx : Stands x a) (hy : Stands y b) :
    Stands (greater x y) (max a b) := by
  unfold greater
  rw [hy.number, Bool.or_false]
  by_cases less : y < x
  · rw [if_pos (decide_eq_true less), max_eq_left ((hy.lt_iff hx).1 less).le]
    exact hx
  · rw [if_neg (by simpa using less), max_eq_right (not_lt.1 (mt (hy.lt_iff hx).2 less))]
    exact hy

theorem stands_infinite : Stands (1.0 / 0.0) ⊤ := by
  have literal : (1.0 / 0.0 : Float) = packed (.infinity .positive) := rfl
  rw [literal]
  exact rounded_top ▸ (Rounds.of_canonical (u := .infinity .positive) rfl trivial).stands

/-- The extreme of some numbers and a first one, of which `pick` keeps the extreme of two. -/
theorem stands_foldl {op : Float → Float → Float} {pick : EReal → EReal → EReal}
    (step : ∀ {x y a b}, Stands x a → Stands y b → Stands (op x y) (pick a b)) {xs : List Float}
    (numbers : ∀ x ∈ xs, x.isNaN = false) {start : Float} {a : EReal} (hs : Stands start a) :
    Stands (xs.foldl op start) ((xs.map worth).foldl pick a) := by
  induction xs generalizing start a with
  | nil => exact hs
  | cons x rest ih =>
    obtain ⟨number, numbers⟩ := List.forall_mem_cons.1 numbers
    exact ih numbers (step hs (stands_worth number))

theorem foldl_min_mem (values : List EReal) (a : EReal) :
    values.foldl min a ∈ a :: values ∧ ∀ b ∈ a :: values, values.foldl min a ≤ b :=
  List.min?_eq_some_iff.1 List.min?_cons'

theorem foldl_max_mem (values : List EReal) (a : EReal) :
    values.foldl max a ∈ a :: values ∧ ∀ b ∈ a :: values, b ≤ values.foldl max a :=
  List.max?_eq_some_iff.1 List.max?_cons'

section Extremes

variable {xs : List Float} (numbers : ∀ x ∈ xs, x.isNaN = false) (some_value : xs ≠ [])
include numbers some_value

/-- A first number as far out as a number can be is the extreme only of numbers that all are as far out. So the
extreme is one of the numbers behind it. -/
theorem exists_extreme {op : Float → Float → Float} {pick : EReal → EReal → EReal}
    (step : ∀ {x y a b}, Stands x a → Stands y b → Stands (op x y) (pick a b)) {start : Float} {a : EReal}
    (hs : Stands start a) (beyond : EReal → EReal → Prop) (outmost : ∀ b, beyond a b → b = a)
    (extreme : (xs.map worth).foldl pick a ∈ a :: xs.map worth ∧
      ∀ b ∈ a :: xs.map worth, beyond ((xs.map worth).foldl pick a) b) :
    ∃ x ∈ xs, Stands (xs.foldl op start) (worth x) ∧ ∀ y ∈ xs, beyond (worth x) (worth y) := by
  have stands := stands_foldl step numbers hs
  obtain ⟨mem, out⟩ := extreme
  generalize (xs.map worth).foldl pick a = value at stands mem out
  have out' : ∀ y ∈ xs, beyond value (worth y) :=
    fun y hy => out _ (List.mem_cons_of_mem _ (List.mem_map_of_mem hy))
  rcases List.mem_cons.1 mem with rfl | mem
  · obtain ⟨x, hx⟩ := List.exists_mem_of_ne_nil xs some_value
    have same := outmost _ (out' x hx)
    exact ⟨x, hx, same.symm ▸ stands, same.symm ▸ out'⟩
  · obtain ⟨x, hx, rfl⟩ := List.mem_map.1 mem
    exact ⟨x, hx, stands, out'⟩

/-- **The least of some numbers is one of them, and at most each.** -/
theorem stands_least : ∃ x ∈ xs, Stands (least xs) (worth x) ∧ ∀ y ∈ xs, worth x ≤ worth y :=
  exists_extreme numbers some_value stands_lesser stands_infinite (· ≤ ·) (fun _ => top_le_iff.1)
    (foldl_min_mem _ _)

/-- **The greatest of some numbers is one of them, and at least each.** -/
theorem stands_greatest : ∃ x ∈ xs, Stands (greatest xs) (worth x) ∧ ∀ y ∈ xs, worth y ≤ worth x :=
  exists_extreme numbers some_value stands_greater (EReal.neg_top ▸ stands_infinite.neg) (· ≥ ·)
    (fun _ => le_bot_iff.1) (foldl_max_mem _ _)

end Extremes

end FxPulse.Number
