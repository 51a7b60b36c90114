import FxPulse.Proofs.Number.Sample
import FxPulse.Proofs.Oscillator.WarmUp

/-!
# `Proofs/Oscillator/Scaled.lean` — oscillators on a scale from 0 to 100

Relative strength, a stochastic place and a rank are percentages: shares of something that is at least as great,
times a hundred, or what such a share leaves of a hundred. Rounding does them no harm. One and a hundred are
floats, and what lies between two floats still does when it has been rounded. Overflow does. The distance of two
finite values may be too great for a float, and of two infinities neither is a share of the other. So

> a percentage of finite values is on the scale just if nothing it is worked out from overflows, and is no number
> otherwise (`ready_onScale`).

A rank is counted and never lost. The other two are not lost as long as values stay within `1e290`, which leaves
room for sums of as many moves as a period may have. That averages of moves are not negative is carried as a
bound on what floats stand for, which no overflow breaks (`Rsi.worth_wilder`): what is no number stands for zero.
-/

set_option autoImplicit false

namespace FxPulse

open FxPulse.Number

/-- A number on the scale from 0 to 100. -/
def OnScale (x : Float) : Prop := 0.0 ≤ x ∧ x ≤ 100.0

theorem OnScale.number {x : Float} (h : OnScale x) : x.isNaN = false := (isNaN_of_le h.1).2

theorem onScale_iff_upTo {x : Float} : OnScale x ↔ UpTo x 100 := by
  constructor
  · intro h
    have stands := stands_worth h.number
    exact stands.upTo ((stands_zero.le_iff stands).1 h.1) ((stands.le_iff stands_hundred).1 h.2)
  · rintro ⟨v, stands, nonneg, le⟩
    exact ⟨(stands_zero.le_iff stands).2 nonneg, (stands.le_iff stands_hundred).2 le⟩

/-- A number on the scale, unless it is lost; then it is no number. -/
structure OnScaleUnless (lost : Prop) (x : Float) : Prop where
  onScale_iff : OnScale x ↔ ¬ lost
  isNaN_iff : x.isNaN = true ↔ lost

theorem Number.UpTo.onScaleUnless {lost : Prop} {x : Float} (h : ¬ lost) (hx : UpTo x 100) :
    OnScaleUnless lost x where
  onScale_iff := iff_of_true (onScale_iff_upTo.2 hx) h
  isNaN_iff := iff_of_false (Bool.not_eq_true _ ▸ hx.number) h

theorem onScaleUnless_of_isNaN {lost : Prop} {x : Float} (h : lost) (undefined : x.isNaN = true) :
    OnScaleUnless lost x where
  onScale_iff := iff_of_false
    (fun shown => Bool.false_ne_true (shown.number.symm.trans undefined)) (not_not_intro h)
  isNaN_iff := iff_of_true undefined h

/-! ## Percentages -/

/-- A share that is at most one is at most a hundred percent. -/
theorem upTo_percent {x : Float} (hx : UpTo x 1) : UpTo (x * 100.0) 100 := by
  have hundred : UpTo 100.0 ((100 : ℝ) : EReal) := ⟨_, stands_hundred, by norm_num, le_rfl⟩
  exact UpTo.mul (r := 1) (s := 100) (t := 100) hx hundred stands_hundred.rounded_eq (by norm_num)

/-- What is left of a hundred. -/
theorem upTo_rest {x : Float} (hx : UpTo x 100) : UpTo (100.0 - x) 100 := by
  have finite := UpTo.isFinite (r := 100) hx
  obtain ⟨v, stands, nonneg, le⟩ := hx
  obtain ⟨r, hr, -⟩ := exists_stands_of_isFinite finite
  obtain rfl : v = r := stands.worth_eq.symm.trans hr.worth_eq
  have rest := stands_hundred.sub stands (.inr (EReal.coe_ne_top r)) (.inr (EReal.coe_ne_bot r))
  have hundred : (100 : EReal) = ((100 : ℝ) : EReal) := rfl
  rw [hundred, EReal.coe_le_coe_iff] at le
  rw [EReal.coe_nonneg] at nonneg
  rw [hundred, ← EReal.coe_sub] at rest
  refine ⟨_, rest, rounded_nonneg (EReal.coe_nonneg.2 (sub_nonneg.2 le)), ?_⟩
  refine (rounded_mono (EReal.coe_le_coe_iff.2 ?_)).trans_eq stands_hundred.rounded_eq
  exact sub_le_self 100 nonneg

/-! ## Stochastic places -/

section Place

variable {window : List Float} {x : Float} (finite : ∀ y ∈ window, y.isFinite = true) (mem : x ∈ window)
include finite mem

/-- The distances of a value and of the greatest one from the least, as floats. -/
theorem stands_distances : ∃ a b : EReal, Stands (x - least window) a ∧
    Stands (greatest window - least window) b ∧ 0 ≤ a ∧ a ≤ b ∧
    (0 < b ↔ least window < greatest window) := by
  have numbers : ∀ y ∈ window, y.isNaN = false := fun y hy => isNaN_of_isFinite (finite y hy)
  obtain ⟨low, low_mem, stands_low, below⟩ := stands_least numbers (List.ne_nil_of_mem mem)
  obtain ⟨high, high_mem, stands_high, above⟩ := stands_greatest numbers (List.ne_nil_of_mem mem)
  obtain ⟨u, hu, fits, -⟩ := exists_stands_of_isFinite (finite low low_mem)
  obtain ⟨v, hv, -⟩ := exists_stands_of_isFinite (finite x mem)
  obtain ⟨w, hw, fits', -⟩ := exists_stands_of_isFinite (finite high high_mem)
  have first := below x mem
  have second := above x mem
  rw [hu.worth_eq] at first stands_low
  rw [hw.worth_eq] at second stands_high
  rw [hv.worth_eq, EReal.coe_le_coe_iff] at first second
  refine ⟨_, _, hv.sub stands_low (.inl (EReal.coe_ne_top v)) (.inl (EReal.coe_ne_bot v)),
    stands_high.sub stands_low (.inl (EReal.coe_ne_top w)) (.inl (EReal.coe_ne_bot w)), ?_, ?_, ?_⟩
  · rw [← EReal.coe_sub]
    exact rounded_nonneg (EReal.coe_nonneg.2 (sub_nonneg.2 first))
  · rw [← EReal.coe_sub, ← EReal.coe_sub]
    exact rounded_mono (EReal.coe_le_coe_iff.2 (sub_le_sub_right second u))
  · rw [stands_low.lt_iff stands_high, EReal.coe_lt_coe_iff, ← EReal.coe_sub]
    constructor
    · intro pos
      by_contra! order
      have none : w - u = 0 := by linarith
      rw [none, EReal.coe_zero, rounded_zero] at pos
      exact pos.false
    · intro less
      -- Different floats are no nearer than the least power of two is to zero.
      have apart := rounded_mono (EReal.coe_le_coe_iff.2 (fits.le_sub fits' less))
      rw [rounded_two_zpow le_rfl (by norm_num)] at apart
      exact lt_of_lt_of_le (EReal.coe_pos.2 (two_zpow_pos _)) apart

/-- **A place is on the scale, unless the distance from the least value is too great for a float.** -/
theorem upTo_stochasticOf (near : (x - least window).isFinite = true) :
    UpTo (stochasticOf window x) 100 := by
  obtain ⟨a, b, ha, hb, nonneg, le, pos_iff⟩ := stands_distances finite mem
  unfold stochasticOf
  dsimp only
  by_cases moved : least window < greatest window
  · rw [if_pos moved]
    exact upTo_percent (upTo_share ha hb nonneg le (pos_iff.2 moved) near)
  · rw [if_neg moved]
    have literal : (50.0 : Float) = 0.5 * 100.0 := rfl
    rw [literal]
    refine upTo_percent ⟨_, stands_half, ?_, ?_⟩
    · exact EReal.coe_nonneg.2 (by norm_num)
    · exact EReal.coe_le_coe_iff.2 (by norm_num)

/-- Then it is no number. -/
theorem isNaN_stochasticOf (far : (x - least window).isFinite = false) :
    (stochasticOf window x).isNaN = true := by
  obtain ⟨a, b, ha, hb, nonneg, le, pos_iff⟩ := stands_distances finite mem
  have top : a = ⊤ := by
    by_contra not_top
    exact Bool.false_ne_true (far.symm.trans ((ha.isFinite_iff_of_nonneg nonneg).2 not_top))
  have top' : b = ⊤ := top_le_iff.1 (top ▸ le)
  have moved : least window < greatest window := pos_iff.1 (top' ▸ EReal.zero_lt_top)
  unfold stochasticOf
  dsimp only
  rw [if_pos moved]
  by_contra defined
  rw [Bool.not_eq_true] at defined
  rcases finite_of_div (strict_mul.numbers defined).1 with near | near
  · rw [near] at far
    cases far
  · exact (hb.isFinite_iff_of_nonneg (nonneg.trans le)).1 near top'

end Place

/-! ## Percent ranks -/

/-- The first count that one cannot be added to. -/
theorem rounded_full : rounded (((2 ^ 53 : ℕ) : EReal) + 1) = ((2 ^ 53 : ℕ) : EReal) := by
  have full := stands_count (n := 2 ^ 53) le_rfl
  have more := full.add stands_one (.inr (EReal.bot_lt_coe 1).ne') (.inr (EReal.coe_ne_top 1))
  rw [show (2 ^ 53 : ℕ).toFloat + 1.0 = (2 ^ 53 : ℕ).toFloat from rfl] at more
  exact more.worth_eq.symm.trans full.worth_eq

/-- Points are at most as many as the values they are given for, and at that stop where one cannot be added. -/
theorem upTo_rankPoints {k : ℕ} {points : Float} (h : UpTo points (min k (2 ^ 53) : ℕ)) (x other : Float) :
    UpTo (rankPoints x other points) (min (k + 1) (2 ^ 53) : ℕ) := by
  have more : ∀ y, UpTo y 1 → UpTo (points + y) (min (k + 1) (2 ^ 53) : ℕ) := by
    rintro y ⟨w, stands', nonneg', le'⟩
    obtain ⟨v, stands, nonneg, le⟩ := h
    have sum := stands.add stands' (.inr (EReal.bot_lt_zero.trans_le nonneg').ne')
      (.inl (EReal.bot_lt_zero.trans_le nonneg).ne')
    refine ⟨_, sum, rounded_nonneg (add_nonneg nonneg nonneg'), ?_⟩
    refine (rounded_mono (add_le_add le le')).trans_eq ?_
    by_cases few : k < 2 ^ 53
    · rw [Nat.min_eq_left few.le, Nat.min_eq_left few, ← Nat.cast_succ, rounded_natCast few]
    · rw [Nat.min_eq_right (by omega), Nat.min_eq_right (by omega), rounded_full]
  unfold rankPoints
  split_ifs
  · exact more 1.0 (stands_one.upTo zero_le_one le_rfl)
  · exact more 0.5 (stands_half.upTo (EReal.coe_nonneg.2 (by norm_num)) (EReal.coe_le_coe_iff.2 (by norm_num)))
  · exact h.mono (by exact_mod_cast min_le_min_right _ (Nat.le_succ k))

theorem upTo_points (x : Float) (others : List Float) :
    UpTo (others.foldl (fun points other => rankPoints x other points) 0.0)
      (min others.length (2 ^ 53) : ℕ) := by
  induction others using List.reverseRecOn with
  | nil => exact stands_zero.upTo le_rfl (by simp)
  | append_singleton front other ih =>
    rw [List.foldl_concat, List.length_append, List.length_singleton]
    exact upTo_rankPoints ih x other

/-- **A rank is on the scale**, whatever the values are. -/
theorem upTo_percentRankOf {window : List Float} (two : 2 ≤ window.length) (x : Float) :
    UpTo (percentRankOf window x) 100 := by
  unfold percentRankOf
  have pos : 0 < window.dropLast.length := by
    rw [List.length_dropLast]
    omega
  have points := upTo_points x window.dropLast
  generalize window.dropLast = others at pos points ⊢
  dsimp only
  have finite := UpTo.isFinite (r := (min others.length (2 ^ 53) : ℕ)) points
  obtain ⟨v, stands, nonneg, le⟩ := points
  have whole : ((min others.length (2 ^ 53) : ℕ) : EReal) ≤ rounded others.length := by
    rw [← rounded_natCast (min_le_right _ _)]
    exact rounded_mono (by exact_mod_cast min_le_left _ _)
  have some_other : 0 < rounded others.length :=
    (stands_toFloat others.length).worth_eq ▸ worth_toFloat_pos pos
  exact upTo_percent (upTo_share stands (stands_toFloat _) nonneg (le.trans whole) some_other finite)

/-! ## Relative strength -/

namespace Rsi

theorem worth_greater_zero (x : Float) : 0 ≤ worth (greater x 0.0) := by
  unfold greater
  split
  · rename_i chosen
    rw [stands_zero.number, Bool.or_false] at chosen
    have more : 0.0 < x := of_decide_eq_true chosen
    rw [lt_iff_worth stands_zero.number (isNaN_of_lt more).2, stands_zero.worth_eq] at more
    exact more.le
  · exact stands_zero.worth_eq.ge

theorem gains_nonneg (moves : List Float) : ∀ amount ∈ gains moves, 0 ≤ worth amount :=
  List.forall_mem_map.2 fun move _ => worth_greater_zero move

theorem losses_nonneg (moves : List Float) : ∀ amount ∈ losses moves, 0 ≤ worth amount :=
  List.forall_mem_map.2 fun move _ => worth_greater_zero (-move)

/-- What holds of the mean of a period, and is kept by blending, holds of the average. -/
theorem wilder_induction (holds : Float → Prop) {period : ℕ} {amounts : List Float}
    (first : holds (total (amounts.take period) / period.toFloat))
    (next : ∀ average, holds average → ∀ amount ∈ amounts, holds (blend period average amount)) :
    holds (wilder period amounts) :=
  List.foldlRecOn _ _ first fun average h amount mem =>
    next average h amount (List.mem_of_mem_drop mem)

section Averages

variable {period : ℕ} {amounts : List Float} (pos : 0 < period)
include pos

theorem worth_period_sub_one : 0 ≤ worth (period.toFloat - 1.0) := by
  have count := stands_toFloat period
  have one : (1 : EReal) ≤ rounded period :=
    stands_one.rounded_eq.symm.trans_le (rounded_mono (by exact_mod_cast pos))
  have rest := count.sub stands_one (.inr (EReal.coe_ne_top 1)) (.inr (EReal.coe_ne_bot 1))
  rw [rest.worth_eq]
  exact rounded_nonneg ((EReal.sub_nonneg (.inr (EReal.coe_ne_top 1)) (.inr (EReal.coe_ne_bot 1))).2 one)

/-- **No average of amounts that are not negative is**, even if it is too great for a float. -/
theorem worth_wilder (each : ∀ amount ∈ amounts, 0 ≤ worth amount) : 0 ≤ worth (wilder period amounts) := by
  have count := worth_toFloat_pos pos
  apply wilder_induction (0 ≤ worth ·)
  · refine worth_div_nonneg ?_ count
    exact List.foldlRecOn (motive := (0 ≤ worth ·)) _ _ stands_zero.worth_eq.ge fun sum h amount mem =>
      worth_add_nonneg h (each amount (List.mem_of_mem_take mem))
  · intro average h amount mem
    exact worth_div_nonneg (worth_add_nonneg (worth_mul_nonneg h (worth_period_sub_one pos)) (each amount mem))
      count

/-- **An average is at most the bound of what is averaged**, as long as periods of the bound are floats. -/
theorem upTo_wilder {c : ℝ} (few : period ≤ 2 ^ 53) (repeats : Repeats c period)
    (enough : period ≤ amounts.length) (each : ∀ amount ∈ amounts, UpTo amount c) :
    UpTo (wilder period amounts) c := by
  have once : rounded c = c := by simpa using repeats 1 pos
  apply wilder_induction (UpTo · c)
  · have length : (amounts.take period).length = period := List.length_take_of_le enough
    have sum : UpTo (total (amounts.take period)) ((amounts.take period).length * c) :=
      upTo_foldl_add (length.symm ▸ repeats) (fun amount mem => each amount (List.mem_of_mem_take mem))
        stands_zero
    rw [length] at sum
    exact sum.div_count pos few once
  · intro average h amount mem
    obtain ⟨n, rfl⟩ : ∃ n, period = n + 1 := ⟨period - 1, by omega⟩
    have rest : UpTo ((n + 1).toFloat - 1.0) (n : ℝ) := by
      have difference := (stands_count few).sub stands_one (.inr (EReal.coe_ne_top 1))
        (.inr (EReal.coe_ne_bot 1))
      have value : ((n + 1 : ℕ) : EReal) - 1 = n := by
        rw [← EReal.coe_natCast, ← EReal.coe_one, ← EReal.coe_sub, Nat.cast_succ, add_sub_cancel_right,
          EReal.coe_natCast]
      rw [value, rounded_natCast (by omega)] at difference
      exact difference.upTo (by exact_mod_cast Nat.zero_le n) le_rfl
    have scaled := repeats n (by omega)
    have part : UpTo (average * ((n + 1).toFloat - 1.0)) (((n * c : ℝ) : EReal)) :=
      h.mul rest (by exact_mod_cast scaled) (mul_comm c n).le
    have sum := part.add (each amount mem) (repeats (n + 1) le_rfl) (by
      exact_mod_cast (show (n * c + c : ℝ) ≤ ((n + 1 : ℕ) : ℝ) * c by push_cast; linarith))
    exact sum.div_count pos few once

end Averages

section Index

variable {gain loss : Float}

/-- **The index is on the scale**, unless the averages have no quotient. -/
theorem upTo_index (nonneg : 0 ≤ worth gain) (nonneg' : 0 ≤ worth loss)
    (defined : (loss == 0.0) = true ∨ (gain / loss).isNaN = false) : UpTo (index gain loss) 100 := by
  unfold index
  split
  · exact stands_hundred.upTo (EReal.coe_nonneg.2 (by norm_num)) le_rfl
  · rename_i some_loss
    have quotient := defined.resolve_left some_loss
    obtain ⟨number, number'⟩ := strict_div.numbers quotient
    rw [beq_iff_worth number' stands_zero.number, stands_zero.worth_eq] at some_loss
    have pos : 0 < worth loss := lt_of_le_of_ne nonneg' (Ne.symm some_loss)
    have ratio := stands_div_of_number quotient pos.ne'
    have ratio_nonneg := rounded_nonneg (EReal.div_nonneg nonneg pos.le)
    have divisor := stands_one.add ratio (.inl (EReal.coe_ne_top 1)) (.inl (EReal.coe_ne_bot 1))
    have one_le : 1 ≤ rounded (1 + rounded (worth gain / worth loss)) :=
      stands_one.rounded_eq.symm.trans_le (rounded_mono (le_add_of_nonneg_right ratio_nonneg))
    generalize rounded (1 + rounded (worth gain / worth loss)) = w at divisor one_le
    have positive : 0 < w := zero_lt_one.trans_le one_le
    have hundred : (0 : EReal) ≤ 100 := EReal.coe_nonneg.2 (by norm_num)
    have share := stands_hundred.div divisor positive.ne' (.inl (stands_hundred.isFinite (r := 100)))
    refine upTo_rest ⟨_, share, rounded_nonneg (EReal.div_nonneg hundred positive.le), ?_⟩
    refine (rounded_mono ?_).trans_eq stands_hundred.rounded_eq
    by_cases top : w = ⊤
    · rw [top, EReal.div_top]
      exact hundred
    · rw [EReal.div_le_iff_le_mul positive top]
      exact (one_mul (100 : EReal)).symm.trans_le (mul_le_mul_of_nonneg_right one_le hundred)

/-- Then it is no number. -/
theorem isNaN_index (some_loss : (loss == 0.0) = false) (undefined : (gain / loss).isNaN = true) :
    (index gain loss).isNaN = true := by
  rw [index, some_loss, if_neg Bool.false_ne_true]
  exact strict_sub.undefined (.inr (strict_div.undefined (.inr (strict_add.undefined (.inr undefined)))))

end Index

/-- The answer to some values is the index of the averages of all moves. -/
theorem feed_new_snd (period : ℕ) (values : List Float) :
    (feed Oscillator.push (Oscillator.new (.rsi period)) values).2
      = (worth? (max period 1) (moves (samples values))).map fun value => (value, none) := by
  rw [feed_new, foldl_push_new, value?_phaseOf]

theorem exists_of_mem_moves {samples : List Float} {move : Float} (mem : move ∈ moves samples) :
    ∃ earlier ∈ samples, ∃ later ∈ samples, move = later - earlier := by
  rw [moves, ← List.map_uncurry_zip_eq_zipWith] at mem
  obtain ⟨⟨earlier, later⟩, pair, rfl⟩ := List.mem_map.1 mem
  obtain ⟨first, second⟩ := List.of_mem_zip pair
  exact ⟨earlier, first, later, List.mem_of_mem_tail second, rfl⟩

end Rsi

/-! ## Values that are not too great -/

/-- No farther from zero than `1e290`. Differences of such values are floats, and so are sums of as many of
these as can ever be averaged. -/
def Moderate (x : Float) : Prop := -1e290 ≤ x ∧ x ≤ 1e290

theorem exists_stands_greatest_moderate : ∃ r : ℝ, Stands 1e290 r ∧ r ≤ 2 ^ (964 : ℤ) := by
  have stands := stands_literal (x := 1e290) (m := 5776622002767455) (e := 911) (by norm_num) (by norm_num)
    (by norm_num) (by decide +kernel)
  refine ⟨_, stands, ?_⟩
  rw [show (964 : ℤ) = 53 + 911 by norm_num, two_zpow_add]
  exact mul_le_mul_of_nonneg_right (by norm_num) (two_zpow_pos _).le

theorem Moderate.exists_real {x : Float} (h : Moderate x) : ∃ r : ℝ, Stands x r ∧ |r| ≤ 2 ^ (964 : ℤ) := by
  obtain ⟨bound, greatest, small⟩ := exists_stands_greatest_moderate
  have number := (isNaN_of_le h.2).1
  have above := ((stands_worth number).le_iff greatest).1 h.2
  have below := (greatest.neg.le_iff (stands_worth number)).1 h.1
  have finite := (stands_worth number).isFinite_of_between (r := -bound) below above
  obtain ⟨r, stands, -⟩ := exists_stands_of_isFinite finite
  rw [stands.worth_eq, ← EReal.coe_neg, EReal.coe_le_coe_iff] at below
  rw [stands.worth_eq, EReal.coe_le_coe_iff] at above
  exact ⟨r, stands, abs_le.2 ⟨(neg_le_neg small).trans below, above.trans small⟩⟩

/-- Values that are not too great are no farther apart than a power of two. -/
theorem Moderate.exists_sub {x y : Float} (hx : Moderate x) (hy : Moderate y) :
    ∃ v : EReal, Stands (x - y) v ∧ v ∈ Set.Icc ((-2 ^ (965 : ℤ) : ℝ) : EReal) ((2 ^ (965 : ℤ) : ℝ) : EReal) := by
  obtain ⟨r, stands, small⟩ := hx.exists_real
  obtain ⟨s, stands', small'⟩ := hy.exists_real
  have greatest : |(2 ^ (965 : ℤ) : ℝ)| < limit := by
    rw [abs_of_pos (two_zpow_pos 965)]
    exact zpow_lt_zpow_right₀ one_lt_two (by norm_num)
  have least : |(-2 ^ (965 : ℤ) : ℝ)| < limit := by rwa [abs_neg]
  have fits : Fits (2 ^ (965 : ℤ)) := fits_two_zpow (by norm_num)
  have twice : (2 : ℝ) ^ (965 : ℤ) = 2 ^ (964 : ℤ) + 2 ^ (964 : ℤ) := by
    rw [show (965 : ℤ) = 1 + 964 by norm_num, two_zpow_add, zpow_one, two_mul]
  refine ⟨_, stands.sub stands' (.inl (EReal.coe_ne_top r)) (.inl (EReal.coe_ne_bot r)), ?_⟩
  apply rounded_mem_Icc (rounded_of_fits fits.neg least) (rounded_of_fits fits greatest)
  rw [← EReal.coe_sub, Set.mem_Icc, EReal.coe_le_coe_iff, EReal.coe_le_coe_iff, ← abs_le, twice]
  exact (abs_sub r s).trans (add_le_add small small')

theorem upTo_greater {x : Float} {v c : EReal} (hx : Stands x v) (nonneg : 0 ≤ c) (h : v ≤ c) :
    UpTo (greater x 0.0) c :=
  (stands_greater hx stands_zero).upTo (le_max_right v 0) (max_le h nonneg)

namespace Rsi

variable {samples : List Float} (moderate : ∀ x ∈ samples, Moderate x)
include moderate

theorem upTo_gain {gain : Float} (mem : gain ∈ gains (moves samples)) : UpTo gain ((2 ^ (965 : ℤ) : ℝ)) := by
  obtain ⟨move, moved, rfl⟩ := List.mem_map.1 mem
  obtain ⟨earlier, first, later, second, rfl⟩ := exists_of_mem_moves moved
  obtain ⟨v, stands, -, le⟩ := (moderate later second).exists_sub (moderate earlier first)
  exact upTo_greater stands (EReal.coe_nonneg.2 (two_zpow_pos _).le) le

theorem upTo_loss {loss : Float} (mem : loss ∈ losses (moves samples)) : UpTo loss ((2 ^ (965 : ℤ) : ℝ)) := by
  obtain ⟨move, moved, rfl⟩ := List.mem_map.1 mem
  obtain ⟨earlier, first, later, second, rfl⟩ := exists_of_mem_moves moved
  obtain ⟨v, stands, ge, -⟩ := (moderate later second).exists_sub (moderate earlier first)
  refine upTo_greater stands.neg (EReal.coe_nonneg.2 (two_zpow_pos _).le) ?_
  rw [EReal.neg_le, ← EReal.coe_neg]
  exact ge

/-- Averages of moves between such values have a quotient. -/
theorem quotient_of_moderate {period : ℕ} (pos : 0 < period) (few : period ≤ 2 ^ 48)
    (enough : period ≤ (moves samples).length) :
    (wilder period (losses (moves samples)) == 0.0) = true ∨
      (wilder period (gains (moves samples)) / wilder period (losses (moves samples))).isNaN = false := by
  have repeats : Repeats ((2 ^ (965 : ℤ) : ℝ)) period := by
    simpa using repeats_intCast_mul (m := 1) (e := 965) (by norm_num) (by norm_num) (n := period)
      (by norm_num; omega)
  have gain := upTo_wilder pos (few.trans (by norm_num)) repeats ((length_gains _).symm ▸ enough)
    fun gain => upTo_gain moderate
  have loss := upTo_wilder pos (few.trans (by norm_num)) repeats ((length_losses _).symm ▸ enough)
    fun loss => upTo_loss moderate
  cases none : wilder period (losses (moves samples)) == 0.0 with
  | true => exact .inl rfl
  | false =>
    have finite := gain.isFinite
    obtain ⟨v, stands, -⟩ := gain
    obtain ⟨w, stands', -⟩ := loss
    have divisor : w ≠ 0 := fun zero =>
      Bool.false_ne_true (none.symm.trans ((stands'.beq_iff stands_zero).2 zero))
    exact .inr (stands.div stands' divisor (.inl finite)).number

end Rsi

/-- Nothing among such values is too far from the least. -/
theorem isFinite_sub_least {window : List Float} {x : Float} (moderate : ∀ y ∈ window, Moderate y)
    (mem : x ∈ window) : (x - least window).isFinite = true := by
  obtain ⟨bound, greatest, -⟩ := exists_stands_greatest_moderate
  have numbers : ∀ y ∈ window, y.isNaN = false := by
    intro y hy
    obtain ⟨r, stands, -⟩ := (moderate y hy).exists_real
    exact stands.number
  obtain ⟨low, low_mem, stands_low, -⟩ := stands_least numbers (List.ne_nil_of_mem mem)
  have stands := stands_worth (numbers low low_mem)
  have least_moderate : Moderate (least window) :=
    ⟨(greatest.neg.le_iff stands_low).2 ((greatest.neg.le_iff stands).1 (moderate low low_mem).1),
      (stands_low.le_iff greatest).2 ((stands.le_iff greatest).1 (moderate low low_mem).2)⟩
  obtain ⟨v, difference, ge, le⟩ := (moderate x mem).exists_sub least_moderate
  exact difference.isFinite_of_between ge le

/-! ## Outputs -/

namespace OscillatorKind

/-- Relative strength, a stochastic place and a rank are percentages. A z-score is not. -/
def isPercentage : OscillatorKind → Bool
  | .zScore _ => false
  | .rsi _ | .stochastic _ _ | .percentRank _ => true

/-- How many numbers means are taken of. -/
def averaged : OscillatorKind → Nat
  | .rsi period => max period 1
  | .stochastic _ d => max d 1
  | .zScore window => max window 2
  | .percentRank _ => 0

/-- Whether the last value is lost because what it is worked out from is too great for a float: the distance of
an input from the least one, or both averages of moves. -/
def overflows (kind : OscillatorKind) (values : List Float) : Bool :=
  match kind with
  | .rsi period =>
    let moves := Rsi.moves (Rsi.samples values)
    let gain := Rsi.wilder (max period 1) (Rsi.gains moves)
    let loss := Rsi.wilder (max period 1) (Rsi.losses moves)
    !(loss == 0.0) && (gain / loss).isNaN
  | .stochastic k _ => values.getLast?.any fun x => !(x - least (values.rtake (max k 1))).isFinite
  | .zScore _ | .percentRank _ => false

/-- The places that the signal is the mean of. -/
def places (kind : OscillatorKind) (values : List Float) : List Float :=
  match kind with
  | .stochastic k d => (measures stochasticOf (max k 1) values).rtake (max d 1)
  | .rsi _ | .zScore _ | .percentRank _ => []

end OscillatorKind

theorem overflows_stochastic_of_moderate {k d : ℕ} {values : List Float} (moderate : ∀ x ∈ values, Moderate x) :
    (OscillatorKind.stochastic k d).overflows values = false := by
  have window : ∀ y ∈ values.rtake (max k 1), Moderate y := fun y hy => moderate y (List.mem_of_mem_drop hy)
  rw [OscillatorKind.overflows, Option.any_eq_false]
  intro x last
  rw [Bool.not_eq_false']
  exact isFinite_sub_least window (List.mem_of_getLast? ((getLast?_rtake (by omega)).trans last))

theorem measured?_eq_some_iff {measure : List Float → Float → Float} {n : ℕ} {inputs : List Float}
    {value : Float} : measured? measure n inputs = some value ↔
      n ≤ inputs.length ∧ ∃ x, inputs.getLast? = some x ∧ measure (inputs.rtake n) x = value := by
  unfold measured?
  split
  · rename_i enough
    rw [Option.map_eq_some_iff]
    exact (and_iff_right enough).symm
  · rename_i few
    exact iff_of_false nofun fun shown => few shown.1

section Places

variable {values : List Float} (finite : ∀ x ∈ values, x.isFinite = true)
include finite

theorem onScale_place {k d : ℕ} {place : Float} (measured : measured? stochasticOf (max k 1) values = some place) :
    OnScaleUnless ((OscillatorKind.stochastic k d).overflows values = true) place := by
  obtain ⟨-, x, last, rfl⟩ := measured?_eq_some_iff.1 measured
  have pos : 0 < max k 1 := by omega
  have mem : x ∈ values.rtake (max k 1) := List.mem_of_getLast? ((getLast?_rtake pos).trans last)
  have finite' : ∀ y ∈ values.rtake (max k 1), y.isFinite = true :=
    fun y hy => finite y (List.mem_of_mem_drop hy)
  rw [OscillatorKind.overflows, last, Option.any_some]
  cases near : (x - least (values.rtake (max k 1))).isFinite with
  | true => exact (upTo_stochasticOf finite' mem near).onScaleUnless Bool.false_ne_true
  | false => exact onScaleUnless_of_isNaN rfl (isNaN_stochasticOf finite' mem near)

theorem upTo_of_mem_places {k d : ℕ} {place : Float}
    (mem : place ∈ (OscillatorKind.stochastic k d).places values) (number : place.isNaN = false) :
    UpTo place 100 := by
  obtain ⟨front, part, measured⟩ := List.mem_filterMap.1 (List.mem_of_mem_drop mem)
  have shown := onScale_place (k := k) (d := d)
    (fun x hx => finite x ((List.mem_inits _ _).1 part |>.subset hx)) measured
  rw [← onScale_iff_upTo, shown.onScale_iff, ← shown.isNaN_iff, number]
  exact Bool.false_ne_true

/-- A signal is lost as long as one of its places is. -/
theorem onScale_signal {k d : ℕ} {signal : Float} (few : max d 1 ≤ 2 ^ 48)
    (signalled : signal? k d values = some signal) :
    OnScaleUnless (∃ place ∈ (OscillatorKind.stochastic k d).places values, place.isNaN = true) signal := by
  unfold signal? at signalled
  split at signalled
  · rename_i enough
    cases signalled
    change OnScaleUnless _ (mean ((OscillatorKind.stochastic k d).places values))
    have length : ((OscillatorKind.stochastic k d).places values).length = max d 1 := by
      rw [OscillatorKind.places, List.rtake, List.length_drop, length_measures _ (by omega)]
      omega
    by_cases lost : ∃ place ∈ (OscillatorKind.stochastic k d).places values, place.isNaN = true
    · obtain ⟨place, mem, undefined⟩ := id lost
      exact onScaleUnless_of_isNaN lost (isNaN_mean mem undefined)
    · have repeats : Repeats 100 (max d 1) := by
        have whole := repeats_intCast_mul (m := 25) (e := 2) (by norm_num) (by norm_num) (n := max d 1)
          (by norm_num; omega)
        norm_num at whole
        exact whole
      refine (upTo_mean ?_ ?_ (length.symm ▸ repeats) ?_).onScaleUnless lost
      · rw [← List.length_pos_iff, length]
        omega
      · rw [length]
        exact few.trans (by norm_num)
      · intro place mem
        apply upTo_of_mem_places finite mem
        rw [← Bool.not_eq_true]
        exact fun undefined => lost ⟨place, mem, undefined⟩
  · cases signalled

/-- Among values that are not too great no place is lost. -/
theorem number_of_mem_places (moderate : ∀ x ∈ values, Moderate x) {k d : ℕ} {place : Float}
    (mem : place ∈ (OscillatorKind.stochastic k d).places values) : place.isNaN = false := by
  obtain ⟨front, part, measured⟩ := List.mem_filterMap.1 (List.mem_of_mem_drop mem)
  have within : ∀ x ∈ front, x ∈ values := fun x hx => ((List.mem_inits _ _).1 part).subset hx
  have shown := onScale_place (k := k) (d := d) (fun x hx => finite x (within x hx)) measured
  rw [← Bool.not_eq_true, shown.isNaN_iff, overflows_stochastic_of_moderate fun x hx => moderate x (within x hx)]
  exact Bool.false_ne_true

end Places

/-- As long as the values are not too great nothing is lost. -/
theorem overflows_of_moderate {kind : OscillatorKind} {values : List Float} (moderate : ∀ x ∈ values, Moderate x)
    (few : kind.averaged ≤ 2 ^ 48) {answer : Float × Option Float}
    (answered : (feed Oscillator.push (Oscillator.new kind) values).2 = some answer) :
    kind.overflows values = false := by
  cases kind with
  | rsi period =>
    rw [Rsi.feed_new_snd, Option.map_eq_some_iff] at answered
    obtain ⟨value, worth, -⟩ := answered
    have enough : max period 1 ≤ (Rsi.moves (Rsi.samples values)).length := by
      by_contra short
      rw [Rsi.worth?, if_neg short] at worth
      cases worth
    have samples_moderate : ∀ x ∈ Rsi.samples values, Moderate x :=
      fun x mem => moderate x (List.mem_filter.1 mem).1
    rw [OscillatorKind.overflows, Bool.and_eq_false_iff, Bool.not_eq_false']
    exact Rsi.quotient_of_moderate samples_moderate (by omega) few enough
  | stochastic k d => exact overflows_stochastic_of_moderate moderate
  | zScore window => rfl
  | percentRank window => rfl

namespace Oscillator

/-- What is shown is what was answered. -/
theorem answer_of_ready {kind : OscillatorKind} {bands : Bands} {points : List Point} {r : Reading}
    (shown : ((new kind).follow bands points).2 = .ready r) :
    (feed push (new kind) (points.map (·.value))).2 = some (r.value, r.signal) := by
  rcases List.eq_nil_or_concat points with rfl | ⟨front, p, rfl⟩
  · cases shown
  · rw [List.concat_eq_append] at shown ⊢
    rw [follow_concat_snd] at shown
    split at shown
    · rename_i value signal answered
      cases shown
      exact answered
    · cases shown

/-- The value that some finite inputs are answered with. -/
theorem onScale_answer {kind : OscillatorKind} (percentage : kind.isPercentage = true) {values : List Float}
    (finite : ∀ x ∈ values, x.isFinite = true) {value : Float} {signal : Option Float}
    (answered : (feed push (new kind) values).2 = some (value, signal)) :
    OnScaleUnless (kind.overflows values = true) value := by
  cases kind with
  | rsi period =>
    rw [Rsi.feed_new_snd, Option.map_eq_some_iff] at answered
    obtain ⟨index, worth, same⟩ := answered
    cases same
    unfold Rsi.worth? at worth
    split at worth
    · cases worth
      have pos : 0 < max period 1 := by omega
      have gain := Rsi.worth_wilder pos (Rsi.gains_nonneg (Rsi.moves (Rsi.samples values)))
      have loss := Rsi.worth_wilder pos (Rsi.losses_nonneg (Rsi.moves (Rsi.samples values)))
      cases lost : (OscillatorKind.rsi period).overflows values with
      | true =>
        rw [OscillatorKind.overflows, Bool.and_eq_true, Bool.not_eq_true'] at lost
        exact onScaleUnless_of_isNaN rfl (Rsi.isNaN_index lost.1 lost.2)
      | false =>
        rw [OscillatorKind.overflows, Bool.and_eq_false_iff, Bool.not_eq_false'] at lost
        exact (Rsi.upTo_index gain loss lost).onScaleUnless Bool.false_ne_true
    · cases worth
  | stochastic k d =>
    rw [feed_new_stochastic, Option.map_eq_some_iff] at answered
    obtain ⟨place, measured, same⟩ := answered
    cases same
    exact onScale_place finite measured
  | zScore window => cases percentage
  | percentRank window =>
    rw [feed_new_percentRank, Option.map_eq_some_iff] at answered
    obtain ⟨rank, measured, same⟩ := answered
    cases same
    obtain ⟨enough, x, -, rfl⟩ := measured?_eq_some_iff.1 measured
    refine (upTo_percentRankOf ?_ x).onScaleUnless Bool.false_ne_true
    rw [List.rtake, List.length_drop]
    omega

/-- The signal, which only a stochastic place has. -/
theorem onScale_answer_signal {kind : OscillatorKind} (few : kind.averaged ≤ 2 ^ 48) {values : List Float}
    (finite : ∀ x ∈ values, x.isFinite = true) {value signal : Float}
    (answered : (feed push (new kind) values).2 = some (value, some signal)) :
    OnScaleUnless (∃ place ∈ kind.places values, place.isNaN = true) signal := by
  cases kind with
  | stochastic k d =>
    rw [feed_new_stochastic, Option.map_eq_some_iff] at answered
    obtain ⟨place, -, same⟩ := answered
    exact onScale_signal finite few (Prod.mk.inj same).2
  | rsi period =>
    rw [Rsi.feed_new_snd, Option.map_eq_some_iff] at answered
    obtain ⟨index, -, same⟩ := answered
    cases same
  | zScore window =>
    rw [feed_new_zScore, Option.map_eq_some_iff] at answered
    obtain ⟨score, -, same⟩ := answered
    cases same
  | percentRank window =>
    rw [feed_new_percentRank, Option.map_eq_some_iff] at answered
    obtain ⟨rank, -, same⟩ := answered
    cases same

/-- **A percentage is shown on its scale, unless something it is worked out from is too great for a float.** Of
finite points: the value of relative strength and of a stochastic place is from 0 to 100 just if there is no such
overflow, and no number otherwise; a rank always is. The signal is from 0 to 100 just if all places are numbers
that it is the mean of, and no number otherwise. So of points within `1e290` everything shown is on the scale. -/
theorem ready_onScale {kind : OscillatorKind} (percentage : kind.isPercentage = true) (bands : Bands)
    {points : List Point} (finite : ∀ p ∈ points, p.value.isFinite = true) {r : Reading}
    (shown : ((new kind).follow bands points).2 = .ready r) :
    let values := points.map (·.value)
    (OnScale r.value ↔ kind.overflows values = false) ∧
    (r.value.isNaN = true ↔ kind.overflows values = true) ∧
    (kind.averaged ≤ 2 ^ 48 → ∀ signal, r.signal = some signal →
      (OnScale signal ↔ ∀ place ∈ kind.places values, place.isNaN = false) ∧
      (signal.isNaN = true ↔ ∃ place ∈ kind.places values, place.isNaN = true)) ∧
    (kind.averaged ≤ 2 ^ 48 → (∀ p ∈ points, Moderate p.value) →
      OnScale r.value ∧ ∀ signal, r.signal = some signal → OnScale signal) := by
  intro values
  have answered := answer_of_ready shown
  have finite' : ∀ x ∈ values, x.isFinite = true := List.forall_mem_map.2 finite
  have value := onScale_answer percentage finite' answered
  have signal : kind.averaged ≤ 2 ^ 48 → ∀ signal, r.signal = some signal →
      OnScaleUnless (∃ place ∈ kind.places values, place.isNaN = true) signal :=
    fun few signal same => onScale_answer_signal few finite' (same ▸ answered)
  refine ⟨?_, value.isNaN_iff, fun few s same => ⟨?_, (signal few s same).isNaN_iff⟩, fun few moderate => ?_⟩
  · rw [value.onScale_iff, Bool.not_eq_true]
  · rw [(signal few s same).onScale_iff]
    push Not
    simp only [ne_eq, Bool.not_eq_true]
  · have moderate' : ∀ x ∈ values, Moderate x := List.forall_mem_map.2 moderate
    refine ⟨?_, fun s same => (signal few s same).onScale_iff.2 ?_⟩
    · rw [value.onScale_iff, overflows_of_moderate moderate' few answered]
      exact Bool.false_ne_true
    · rintro ⟨place, mem, undefined⟩
      cases kind with
      | stochastic k d =>
        rw [number_of_mem_places finite' moderate' mem] at undefined
        cases undefined
      | _ => cases mem

/-- The distance from `-1e308` to `1e308` is too great: neither its place among the two, nor the relative
strength of a fall and a rise by it, is a number. That of smaller moves is. -/
theorem ready_onScale_overflow :
    let bands : Bands := ⟨70.0, 30.0⟩
    let far : List Point := [⟨1, 1e308⟩, ⟨2, -1e308⟩, ⟨3, 1e308⟩]
    let near : List Point := [⟨1, 10.0⟩, ⟨2, 12.0⟩, ⟨3, 11.0⟩, ⟨4, 12.0⟩]
    (∀ p ∈ far ++ near, p.value.isFinite = true) ∧
      (∃ r, ((new (.stochastic 2 1)).follow bands far).2 = .ready r ∧ r.value.isNaN = true ∧
        ∃ signal, r.signal = some signal ∧ signal.isNaN = true) ∧
      (∃ r, ((new (.rsi 2)).follow bands far).2 = .ready r ∧ r.value.isNaN = true) ∧
      ∃ r, ((new (.rsi 2)).follow bands near).2 = .ready r ∧ OnScale r.value := by
  intro bands far near
  have finite : ∀ p ∈ far, p.value.isFinite = true := by decide +kernel
  have finite' : ∀ p ∈ near, p.value.isFinite = true := by decide +kernel
  have place : ((new (.stochastic 2 1)).follow bands far).2
      = .ready ⟨3, 0.0 / 0.0, some (0.0 / 0.0), .neutral⟩ := by decide +kernel
  have strength : ((new (.rsi 2)).follow bands far).2 = .ready ⟨3, 0.0 / 0.0, none, .neutral⟩ := by
    decide +kernel
  have moderate_strength : ((new (.rsi 2)).follow bands near).2 = .ready ⟨4, 80.0, none, .overbought⟩ := by
    decide +kernel
  obtain ⟨-, lost, signal, -⟩ := ready_onScale rfl bands finite place
  obtain ⟨-, lost', -, -⟩ := ready_onScale rfl bands finite strength
  obtain ⟨kept, -, -, -⟩ := ready_onScale rfl bands finite' moderate_strength
  refine ⟨List.forall_mem_append.2 ⟨finite, finite'⟩, ⟨_, place, lost.2 ?_, _, rfl, ?_⟩,
    ⟨_, strength, lost'.2 ?_⟩, _, moderate_strength, kept.2 ?_⟩
  · decide +kernel
  · exact (signal (by decide) _ rfl).2.2 (List.any_eq_true.1 (by decide +kernel))
  · decide +kernel
  · decide +kernel

end Oscillator

end FxPulse
