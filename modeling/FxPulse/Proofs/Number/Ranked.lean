import FxPulse.Number.Ranked
import FxPulse.Proofs.Number.Worth

/-!
# `Proofs/Number/Ranked.lean` — the rank of a float

Floats are ranked by their bits, read as a whole number and turned round where they have a sign. That
this has to do with the numbers they stand for is due to how they are written: the exponent stands above
the significand, and a significand that is not full has the least exponent.

> Ranks never contradict numbers (`order_of_lt`), and they tell all floats apart (`order_eq_iff`).

They have to decide where comparison does not: `-0.0` stands below `0.0`, and the two values that are no
number stand at the two ends.
-/

set_option autoImplicit false

namespace FxPulse.Number

open Float.Model Float.Model.UnpackedFloat

namespace Ranked

instance : Std.TransCmp order := inferInstanceAs (Std.TransCmp (compareOn key))

theorem order_eq_lt_iff {a b : Ranked} : order a b = .lt ↔ a.key < b.key := compare_lt_iff_lt

/-! ## Ranks of parts -/

/-- A magnitude with its sign: below zero, magnitudes count down from minus one. -/
def signed : Sign → Int → Int
  | .positive, n => n
  | .negative, n => -1 - n

/-- The rank of a float, from its parts. -/
def partsKey : UnpackedFloat → Int
  | .finite s m e _ => signed s ((e + 1074) * 2 ^ 52 + m)
  | .zero s => signed s 0
  | .infinity s => signed s (2047 * 2 ^ 52)
  | .notANumber => 2047 * 2 ^ 52 + 2 ^ 51

section Bits

variable (bits : BitVec Format.binary64.numBits)

/-- One bit of sign, eleven of exponent and fifty-two of significand. -/
theorem toNat_bits : bits.toNat = (unpackSign bits).toNat * 2 ^ 63
    + (unpackExponent bits).toNat * 2 ^ 52 + (unpackMantissa bits).toNat := by
  have small : bits.toNat < 2 ^ 64 := bits.isLt
  simp only [unpackSign, unpackExponent, unpackMantissa, BitVec.toNat_cast, BitVec.extractLsb_toNat,
    Nat.shiftRight_eq_div_pow]
  norm_num at small ⊢
  omega

/-- The bits, turned round where there is a sign. -/
theorem signed_bits :
    (if bits.toNat < signedLimit then (bits.toNat : Int) else signedLimit - 1 - bits.toNat)
      = signed (Sign.ofBitVec (unpackSign bits))
          ((unpackExponent bits).toNat * 2 ^ 52 + (unpackMantissa bits).toNat) := by
  have fields := toNat_bits bits
  have one_bit := (unpackSign bits).isLt
  have exponent := (unpackExponent bits).isLt
  have mantissa := (unpackMantissa bits).isLt
  norm_num at exponent mantissa
  rw [signedLimit, Sign.ofBitVec]
  by_cases positive : unpackSign bits = 0#1
  · have none_set : (unpackSign bits).toNat = 0 := congrArg BitVec.toNat positive
    rw [if_pos positive, signed, if_pos (by omega)]
    omega
  · have set : (unpackSign bits).toNat ≠ 0 := fun h => positive (BitVec.eq_of_toNat_eq h)
    rw [if_neg positive, signed, if_neg (by omega)]
    omega

/-- Parts out of bits have the rank of the bits. -/
theorem signed_bits_eq_partsKey {bits} (valid : Format.binary64.Valid bits) :
    (if bits.toNat < signedLimit then (bits.toNat : Int) else signedLimit - 1 - bits.toNat)
      = partsKey (UnpackedFloat.unpack Format.binary64 bits) := by
  have bias : Format.exponentBias Format.binary64 = 1023 := rfl
  rw [signed_bits, UnpackedFloat.unpack]
  dsimp only
  split
  · rename_i ones
    have field : (unpackExponent bits).toNat = 2047 := congrArg BitVec.toNat ones
    split
    · rename_i none_set
      have fraction : (unpackMantissa bits).toNat = 0 := congrArg BitVec.toNat none_set
      rw [field, fraction]
      rfl
    · -- There is one way only to write the value that is no number.
      rename_i some_set
      rw [valid.eq_packedNaN ones some_set]
      rfl
  · split
    · rename_i zero
      have field : (unpackExponent bits).toNat = 0 := congrArg BitVec.toNat zero
      split
      · rename_i none_set
        have fraction : (unpackMantissa bits).toNat = 0 := congrArg BitVec.toNat none_set
        rw [field, fraction]
        rfl
      · rw [partsKey, field, bias]
        congr 1
    · rw [partsKey, toNat_hidden, bias]
      congr 1
      omega

end Bits

theorem key_float (x : Float) : key (.float x) = partsKey (parts x) :=
  signed_bits_eq_partsKey x.toModel.valid

/-! ## Ranks and numbers -/

/-- The rank of a finite magnitude is above that of zero and below that of infinity. -/
theorem magnitude_bounds {s : Sign} {m : Nat} {e : Int} {pos : 0 < m}
    (canonical : Canonical (.finite s m e pos)) (inRange : InRange (.finite s m e pos)) :
    0 < (e + 1074) * 2 ^ 52 + m ∧ (e + 1074) * 2 ^ 52 + m < 2047 * 2 ^ 52 := by
  obtain ⟨few, least, -⟩ := canonical
  have most : e ≤ 971 := inRange
  constructor <;> omega

/-- Of two finite magnitudes, the lesser in exponent and then in significand has the lesser rank. -/
theorem magnitude_lt {m n : Nat} {e k : Int} (few : m < 2 ^ 53) (least : -1074 ≤ e)
    (full : 2 ^ 52 ≤ n ∨ k = -1074) (h : (compare e k).then (compare m n) = .lt) :
    (e + 1074) * 2 ^ 52 + m < (k + 1074) * 2 ^ 52 + n := by
  rw [Ordering.then_eq_lt, compare_lt_iff_lt, compare_eq_iff_eq, compare_lt_iff_lt] at h
  omega

/-- The lesser of two parts has the lesser rank. Apart from two finite ones on the same side of zero, the
order is that of kinds and signs, and the ranks of each kind are an interval. -/
theorem partsKey_lt {u v : UnpackedFloat} (canonical : Canonical u) (canonical' : Canonical v)
    (inRange : InRange u) (inRange' : InRange v) (h : u.compare v = some .lt) :
    partsKey u < partsKey v := by
  cases u with
  | notANumber => cases h
  | infinity s =>
    cases v with
    | notANumber => cases s <;> cases h
    | infinity t => revert h; cases s <;> cases t <;> decide
    | zero t => revert h; cases s <;> cases t <;> decide
    | finite t n k pos =>
      have bounds := magnitude_bounds canonical' inRange'
      cases s <;> cases t <;>
        simp only [UnpackedFloat.compare, Option.some.injEq, reduceCtorEq, partsKey, signed] at h ⊢ <;>
        omega
  | zero s =>
    cases v with
    | notANumber => cases h
    | infinity t => revert h; cases s <;> cases t <;> decide
    | zero t => cases h
    | finite t n k pos =>
      have bounds := magnitude_bounds canonical' inRange'
      cases s <;> cases t <;>
        simp only [UnpackedFloat.compare, Option.some.injEq, reduceCtorEq, partsKey, signed] at h ⊢ <;>
        omega
  | finite s m e pos =>
    have bounds := magnitude_bounds canonical inRange
    cases v with
    | notANumber => cases s <;> cases h
    | infinity t =>
      cases s <;> cases t <;>
        simp only [UnpackedFloat.compare, Option.some.injEq, reduceCtorEq, partsKey, signed] at h ⊢ <;>
        omega
    | zero t =>
      cases s <;> cases t <;>
        simp only [UnpackedFloat.compare, Option.some.injEq, reduceCtorEq, partsKey, signed] at h ⊢ <;>
        omega
    | finite t n k pos' =>
      have bounds' := magnitude_bounds canonical' inRange'
      cases s with
      | positive =>
        cases t with
        | positive =>
          exact magnitude_lt canonical.1 canonical.2.1 canonical'.2.2 (Option.some.inj h)
        | negative => cases h
      | negative =>
        cases t with
        | positive => simp only [partsKey, signed]; omega
        | negative =>
          -- Further from zero is less.
          have swapped : ((compare e k).then (compare m n)).swap = .lt := Option.some.inj h
          rw [Ordering.swap_then, ← Std.OrientedCmp.eq_swap, ← Std.OrientedCmp.eq_swap] at swapped
          have further := magnitude_lt canonical'.1 canonical'.2.1 canonical.2.2 swapped
          simp only [partsKey, signed]
          omega

/-- **A lesser number has a lesser rank.** -/
theorem order_of_lt {x y : Float} (h : x < y) : order x y = .lt := by
  rw [order_eq_lt_iff, key_float, key_float]
  exact partsKey_lt (canonical_parts x) (canonical_parts y) (inRange_parts x) (inRange_parts y)
    (lt_iff.1 h)

/-! ## Ranks tell floats apart -/

/-- No float but the value that is no number reaches its rank, and none goes below the lesser one. -/
theorem partsKey_bounds {u : UnpackedFloat} (canonical : Canonical u) (inRange : InRange u) :
    -(signedLimit : Int) < partsKey u ∧
      (u.isNaN = false → partsKey u < partsKey .notANumber) := by
  rw [signedLimit]
  cases u with
  | notANumber => exact ⟨by decide, fun number => absurd number (by decide)⟩
  | infinity s => cases s <;> exact ⟨by decide, fun _ => by decide⟩
  | zero s => cases s <;> exact ⟨by decide, fun _ => by decide⟩
  | finite s m e pos =>
    have bounds := magnitude_bounds canonical inRange
    cases s <;> simp only [partsKey, signed] <;> exact ⟨by omega, fun _ => by omega⟩

theorem lowestNaN_lt (x : Float) : order .lowestNaN x = .lt := by
  rw [order_eq_lt_iff, key_float]
  exact (partsKey_bounds (canonical_parts x) (inRange_parts x)).1

/-- What is no number stands above all that is. -/
theorem order_of_isNaN {x y : Float} (number : x.isNaN = false) (undefined : y.isNaN = true) :
    order x y = .lt := by
  rw [order_eq_lt_iff, key_float, key_float]
  have top : parts y = .notANumber := by
    rw [← isNaN_parts] at undefined
    cases unpacked : parts y with
    | notANumber => rfl
    | _ => rw [unpacked] at undefined; cases undefined
  rw [top]
  exact (partsKey_bounds (canonical_parts x) (inRange_parts x)).2 number

/-- **No two floats share a rank.** -/
theorem order_eq_iff {a b : Ranked} : order a b = .eq ↔ a = b := by
  constructor
  · intro h
    cases a with
    | lowestNaN =>
      cases b with
      | lowestNaN => rfl
      | float y => rw [lowestNaN_lt] at h; cases h
    | float x =>
      cases b with
      | lowestNaN =>
        have below : order (.float x) .lowestNaN = .gt :=
          Std.OrientedCmp.gt_of_lt (lowestNaN_lt x)
        rw [below] at h
        cases h
      | float y =>
        -- The bits can be read off the rank.
        have same : key (.float x) = key (.float y) := compare_eq_iff_eq.1 h
        have small := x.toBits.toNat_lt
        have small' := y.toBits.toNat_lt
        rw [Ranked.float.injEq, ← Float.toBits_inj, ← UInt64.toNat_inj]
        simp only [key, signedLimit] at same
        omega
  · rintro rfl
    exact Std.ReflCmp.compare_self

/-- Where numbers are equal and floats are not, the sign decides. -/
example : order (-0.0 : Float) (0.0 : Float) = .lt := by decide +kernel

end Ranked

end FxPulse.Number
