import Mathlib

/-!
# `Proofs/Number/Undefined.lean` — the value that is no number

Comparison treats one value in a way of its own: what is no number is not even equal to itself. Every
other value is, and so is its opposite.
-/

set_option autoImplicit false

namespace FxPulse.Number

open Float.Model Float.Model.UnpackedFloat

theorem beq_self_of_number {x : Float} (number : x.isNaN = false) : (x == x) = true := by
  change (Float.Model.unpack x.toModel).beq (Float.Model.unpack x.toModel) = true
  change (Float.Model.unpack x.toModel).isNaN = false at number
  generalize Float.Model.unpack x.toModel = u at number ⊢
  cases u with
  | notANumber => cases number
  | infinity sign => cases sign <;> rfl
  | zero sign => cases sign <;> rfl
  | finite sign m e pos => cases sign <;> simp [UnpackedFloat.beq, UnpackedFloat.compare]

/-- An exponent that is not all ones belongs to a number. -/
theorem isNaN_unpack {bits : BitVec Format.binary64.numBits}
    (h : unpackExponent bits ≠ -(BitVec.ofNat Format.binary64.exponentBits 1)) :
    (UnpackedFloat.unpack Format.binary64 bits).isNaN = false := by
  rw [UnpackedFloat.unpack]
  dsimp only
  rw [if_neg h]
  split
  · split <;> rfl
  · rfl

theorem isNaN_unpack_pack {u : UnpackedFloat} (number : u.isNaN = false) :
    (UnpackedFloat.unpack Format.binary64 (UnpackedFloat.pack Format.binary64 u)).isNaN = false := by
  cases u with
  | notANumber => cases number
  | infinity sign => cases sign <;> rfl
  | zero sign => cases sign <;> rfl
  | finite sign m e pos =>
    rw [UnpackedFloat.pack]
    dsimp only
    split
    · -- Too great an exponent is packed as an infinity.
      cases sign <;> rfl
    · rename_i room
      split
      · apply isNaN_unpack
        rw [unpackExponent_packComponents]
        intro ones
        have value := congrArg BitVec.toNat ones
        rw [BitVec.toNat_ofNat, Nat.mod_eq_of_lt (by omega)] at value
        simp at value
        omega
      · apply isNaN_unpack
        rw [unpackExponent_packComponents]
        decide

theorem isNaN_neg {x : Float} (number : x.isNaN = false) : (-x).isNaN = false := by
  have opposite : (Float.Model.unpack x.toModel).neg.isNaN = false := by
    change (Float.Model.unpack x.toModel).isNaN = false at number
    revert number
    cases Float.Model.unpack x.toModel <;> exact id
  exact isNaN_unpack_pack opposite

end FxPulse.Number
