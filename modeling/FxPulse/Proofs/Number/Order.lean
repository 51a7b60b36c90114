import FxPulse.Proofs.Number.Undefined

/-!
# `Proofs/Number/Order.lean` — floats in order

Of two numbers, one is at most the other. The value that is no number is at most nothing, and nothing is
at most it. So a test that refuses what is too small and a test that asks for what is great enough are two
different things:

> a float is not at most another one exactly when it is greater, or one of the two is no number
> (`not_le_iff`).

The order of floats is that of their parts, and needs no more of them than the sign where the two sides
of zero are compared.
-/

set_option autoImplicit false

namespace FxPulse.Number

open Float.Model Float.Model.UnpackedFloat

/-! ## Parts -/

/-- A float as a sign, a significand and a power of two. -/
def parts (x : Float) : UnpackedFloat := Float.Model.unpack x.toModel

theorem isNaN_parts (x : Float) : (parts x).isNaN = x.isNaN := rfl

theorem parts_zero : parts 0.0 = .zero .positive := rfl

theorem parts_neg (x : Float) :
    parts (-x) = UnpackedFloat.unpack Format.binary64
      (UnpackedFloat.pack Format.binary64 (parts x).neg) := rfl

theorem le_iff {x y : Float} : x ≤ y ↔ ((parts x).compare (parts y)).any (·.isLE) = true := by
  change decide ((parts x).le (parts y) = true) = true ↔ _
  rw [decide_eq_true_eq]
  rfl

theorem lt_iff {x y : Float} : x < y ↔ (parts x).compare (parts y) = some .lt := by
  change decide ((parts x).lt (parts y) = true) = true ↔ _
  rw [decide_eq_true_eq]
  exact beq_iff_eq

theorem compare_swap (u v : UnpackedFloat) : v.compare u = (u.compare v).map Ordering.swap := by
  cases u with
  | notANumber => cases v <;> rfl
  | infinity s =>
    cases v with
    | infinity t => cases s <;> cases t <;> rfl
    | _ => cases s <;> rfl
  | zero s =>
    cases v with
    | finite t m e pos => cases t <;> rfl
    | infinity t => cases t <;> rfl
    | _ => rfl
  | finite s m e pos =>
    cases v with
    | notANumber => cases s <;> rfl
    | infinity t => cases s <;> cases t <;> rfl
    | zero t => cases s <;> rfl
    | finite t n k pos =>
      have exponents : compare k e = (compare e k).swap := Std.OrientedCmp.eq_swap
      have significands : compare n m = (compare m n).swap := Std.OrientedCmp.eq_swap
      cases s <;> cases t <;>
        simp [UnpackedFloat.compare, Ordering.swap_then, exponents, significands]

theorem compare_eq_none_iff (u v : UnpackedFloat) :
    u.compare v = none ↔ u.isNaN = true ∨ v.isNaN = true := by
  unfold UnpackedFloat.compare
  split <;> simp_all [UnpackedFloat.isNaN]

/-- **What a failed comparison says**, and what it does not. -/
theorem not_le_iff {x y : Float} : ¬ x ≤ y ↔ y < x ∨ x.isNaN = true ∨ y.isNaN = true := by
  rw [le_iff, lt_iff, compare_swap (parts x), ← isNaN_parts, ← isNaN_parts, ← compare_eq_none_iff]
  cases (parts x).compare (parts y) with
  | none => simp
  | some order => cases order <;> simp

/-- What is less than something is a number, and so is that. -/
theorem isNaN_of_lt {x y : Float} (h : x < y) : x.isNaN = false ∧ y.isNaN = false := by
  rw [lt_iff] at h
  have ordered : (parts x).compare (parts y) ≠ none := by simp [h]
  rw [Ne, compare_eq_none_iff, not_or, Bool.not_eq_true, Bool.not_eq_true] at ordered
  exact ordered

/-- And so is what is at most something. -/
theorem isNaN_of_le {x y : Float} (h : x ≤ y) : x.isNaN = false ∧ y.isNaN = false := by
  rw [← Bool.not_eq_true, ← Bool.not_eq_true, ← not_or]
  exact fun undefined => not_le_iff.2 (.inr undefined) h

/-- What anything is equal to is a number, and equal to itself. -/
theorem beq_self_of_beq {x y : Float} (h : (x == y) = true) : (y == y) = true := by
  apply beq_self_of_number
  change (parts x).beq (parts y) = true at h
  cases undefined : y.isNaN with
  | false => rfl
  | true =>
    have incomparable := (compare_eq_none_iff (parts x) (parts y)).2 (.inr undefined)
    rw [UnpackedFloat.beq, incomparable] at h
    cases h

theorem beq_swap (x y : Float) : (y == x) = (x == y) := by
  change (parts y).beq (parts x) = (parts x).beq (parts y)
  rw [UnpackedFloat.beq, UnpackedFloat.beq, compare_swap]
  cases (parts x).compare (parts y) with
  | none => rfl
  | some order => cases order <;> rfl

theorem isNaN_of_isFinite {x : Float} (h : x.isFinite = true) : x.isNaN = false := by
  change (parts x).isFinite = true at h
  rw [← isNaN_parts]
  cases unpacked : parts x with
  | notANumber =>
    rw [unpacked] at h
    cases h
  | _ => rfl

/-! ## Signs -/

/-- The sign of what is a number. -/
def sign? : UnpackedFloat → Option Sign
  | .notANumber => none
  | .infinity s => some s
  | .zero s => some s
  | .finite s _ _ _ => some s

theorem ofBitVec_toBitVec (s : Sign) : Sign.ofBitVec s.toBitVec = s := by
  cases s <;> rfl

/-- The sign stands in front of the other bits. -/
theorem unpackSign_packComponents {spec : Format} {s : Sign} {e : BitVec spec.exponentBits}
    {m : BitVec spec.mantissaBitsWithoutImplicit} :
    unpackSign (packComponents spec s e m) = s.toBitVec := by
  ext i hi
  obtain rfl : i = 0 := by omega
  simp [unpackSign, packComponents, BitVec.getLsbD_append, BitVec.getElem_append]

theorem sign?_unpack {bits : BitVec Format.binary64.numBits}
    (number : (UnpackedFloat.unpack Format.binary64 bits).isNaN = false) :
    sign? (UnpackedFloat.unpack Format.binary64 bits) = some (Sign.ofBitVec (unpackSign bits)) := by
  revert number
  unfold UnpackedFloat.unpack
  dsimp only
  split
  · split
    · exact fun _ => rfl
    · exact nofun
  · split
    · split <;> exact fun _ => rfl
    · exact fun _ => rfl

/-- A number that is packed may become an infinity, but its sign stays. -/
theorem sign?_unpack_pack {u : UnpackedFloat} (number : u.isNaN = false) :
    sign? (UnpackedFloat.unpack Format.binary64 (UnpackedFloat.pack Format.binary64 u)) = sign? u := by
  rw [sign?_unpack (isNaN_unpack_pack number)]
  cases u with
  | notANumber => cases number
  | infinity s =>
    rw [UnpackedFloat.pack, packedInfinity, unpackSign_packComponents, ofBitVec_toBitVec]
    rfl
  | zero s =>
    rw [UnpackedFloat.pack, packedZero, unpackSign_packComponents, ofBitVec_toBitVec]
    rfl
  | finite s m e pos =>
    rw [UnpackedFloat.pack]
    dsimp only [packedInfinity]
    split
    · rw [unpackSign_packComponents, ofBitVec_toBitVec]
      rfl
    · split <;>
      · rw [unpackSign_packComponents, ofBitVec_toBitVec]
        rfl

/-- A float is at least its opposite exactly when it is not negative. -/
theorem neg_le_self_iff {x : Float} : -x ≤ x ↔ 0.0 ≤ x := by
  rw [le_iff, le_iff, parts_zero, parts_neg]
  generalize parts x = u
  cases u with
  | notANumber =>
    rw [(compare_eq_none_iff _ _).2 (.inr rfl), (compare_eq_none_iff _ _).2 (.inr rfl)]
  | zero s => cases s <;> decide +kernel
  | infinity s => cases s <;> decide +kernel
  | finite s m e pos =>
    have opposite := sign?_unpack_pack (u := (UnpackedFloat.finite s m e pos).neg) rfl
    revert opposite
    generalize UnpackedFloat.unpack Format.binary64
      (UnpackedFloat.pack Format.binary64 (UnpackedFloat.finite s m e pos).neg) = v
    intro opposite
    -- Whatever `v` is, it is on the other side of zero.
    cases v with
    | notANumber => cases opposite
    | infinity t => cases opposite; cases s <;> simp [UnpackedFloat.compare]
    | zero t => cases opposite; cases s <;> simp [UnpackedFloat.compare]
    | finite t n k pos => cases opposite; cases s <;> simp [UnpackedFloat.compare]

end FxPulse.Number
