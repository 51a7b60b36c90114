import FxPulse.Market.Quote

/-!
# `History/Search.lean` — look-up by time

Points are kept in order of time, so a time is found by halving. The search looks for the number of
points in front of the first one that fails a test which holds up to some place and fails from there
on. Where the points are out of order the answer is still determined: it is the one that halving
arrives at.
-/

set_option autoImplicit false

namespace FxPulse

/-- Halves the `size` places from `base` on until one is left. The test is asked once per step, in
the middle, and its answer decides which half to keep. -/
def narrow (holds : Nat → Bool) (base size : Nat) : Nat :=
  if size ≤ 1 then base
  else if holds (base + size / 2) then narrow holds (base + size / 2) (size - size / 2)
  else narrow holds base (size - size / 2)
termination_by size
decreasing_by all_goals omega

/-- How many of the places `0, …, n - 1` come before the first at which the test fails. -/
def boundary (n : Nat) (holds : Nat → Bool) : Nat :=
  if n = 0 then 0
  else
    let place := narrow holds 0 n
    if holds place then place + 1 else place

/-- Whatever the test says, halving stays among the places it was given. -/
theorem narrow_lt (holds : Nat → Bool) (base size : Nat) (pos : 0 < size) :
    narrow holds base size < base + size := by
  fun_induction narrow holds base size with
  | case1 base size h => omega
  | case2 base size h test ih =>
    have := ih (by omega)
    omega
  | case3 base size h test ih =>
    have := ih (by omega)
    omega

/-- No more places are counted than there are. -/
theorem boundary_le (n : Nat) (holds : Nat → Bool) : boundary n holds ≤ n := by
  unfold boundary
  split
  · omega
  · have := narrow_lt holds 0 n (by omega)
    dsimp only
    split <;> omega

/-- Only the places before `n` are asked for. -/
theorem boundary_congr {n : Nat} {holds other : Nat → Bool} (same : ∀ i < n, holds i = other i) :
    boundary n holds = boundary n other := by
  have narrowed : ∀ base size, base + size ≤ n → narrow holds base size = narrow other base size := by
    intro base size within
    fun_induction narrow holds base size with
    | case1 base size h => rw [narrow, if_pos h]
    | case2 base size h test ih =>
      rw [ih (by omega), narrow.eq_def other base size, if_neg h, ← same _ (by omega), if_pos test]
    | case3 base size h test ih =>
      rw [ih (by omega), narrow.eq_def other base size, if_neg h, ← same _ (by omega), if_neg test]
  unfold boundary
  by_cases none_there : n = 0
  · rw [if_pos none_there, if_pos none_there]
  · have inside := narrow_lt other 0 n (by omega)
    rw [if_neg none_there, if_neg none_there, narrowed 0 n (by omega)]
    dsimp only
    rw [same _ (by omega)]

/-! ## What halving finds

The test is taken to hold up to some place and to fail from there on, among the places before `n`. -/

/-- Halving ends at the last place where the test holds, or at the first place of all. -/
theorem narrow_spec {holds : Nat → Bool} {n : Nat}
    (down : ∀ i j, i ≤ j → j < n → holds j = true → holds i = true) (base size : Nat)
    (pos : 0 < size) (within : base + size ≤ n) (low : base = 0 ∨ holds base = true)
    (high : ∀ i, base + size ≤ i → i < n → holds i = false) :
    (narrow holds base size = 0 ∨ holds (narrow holds base size) = true) ∧
      ∀ i, narrow holds base size < i → i < n → holds i = false := by
  fun_induction narrow holds base size with
  | case1 base size h => exact ⟨low, fun i hi => high i (by omega)⟩
  | case2 base size h test ih =>
    exact ih (by omega) (by omega) (.inr test) fun i hi => high i (by omega)
  | case3 base size h test ih =>
    refine ih (by omega) (by omega) low fun i hi hn => ?_
    by_cases above : base + size ≤ i
    · exact high i above hn
    · exact Bool.eq_false_iff.2 fun h => test (down (base + size / 2) i (by omega) hn h)

/-- The places before the boundary are those where the test holds. -/
theorem lt_boundary_iff {n : Nat} {holds : Nat → Bool}
    (down : ∀ i j, i ≤ j → j < n → holds j = true → holds i = true) {i : Nat} (hi : i < n) :
    i < boundary n holds ↔ holds i = true := by
  have ⟨low, high⟩ := narrow_spec down 0 n (by omega) (by omega) (.inl rfl) (by omega)
  have lt := narrow_lt holds 0 n (by omega)
  rw [Nat.zero_add] at lt
  unfold boundary
  rw [if_neg (by omega)]
  dsimp only
  split
  · rename_i test
    constructor
    · intro h
      exact down i _ (by omega) lt test
    · intro h
      by_cases above : narrow holds 0 n < i
      · simp [high i above hi] at h
      · omega
  · rename_i test
    have zero := low.resolve_right test
    rw [zero] at test high ⊢
    simp only [Nat.not_lt_zero, false_iff]
    by_cases first : i = 0
    · exact first ▸ test
    · simp [high i (by omega) hi]

namespace Point

/-- Of the first `n` points, the number of those at the front whose time passes the test. -/
def countBefore (points : Array Point) (n : Nat) (test : Int → Bool) : Nat :=
  boundary n fun i => match points[i]? with
    | some p => test p.ts
    | none => false

/-- The number of points at the front whose time passes the test. -/
def countFront (points : Array Point) (test : Int → Bool) : Nat :=
  countBefore points points.size test

/-- The latest point that is not after `ts`; where all are, the earliest, since no place comes before
the first. -/
def atOrBefore? (points : Array Point) (ts : Int) : Option Point :=
  points[countFront points (· ≤ ts) - 1]?

/-- The latest point that is not after `ts`. -/
def covering? (points : Array Point) (ts : Int) : Option Point :=
  (atOrBefore? points ts).filter (·.ts ≤ ts)

/-- The points from `ts` on. -/
def since (points : Array Point) (ts : Int) : Array Point :=
  points.extract (countFront points (· < ts)) points.size

end Point

end FxPulse
