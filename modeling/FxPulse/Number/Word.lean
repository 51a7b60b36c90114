/-!
# `Number/Word.lean` — numbers that fit in a 64-bit word

Counts fit in an unsigned word and times in a signed one. What is read is checked against the two
ranges; what is computed may run out of them. What then becomes of it is not the same in every build:
one breaks off, and one goes on with the number that has the same last 64 bits.
-/

set_option autoImplicit false

namespace FxPulse.Number

/-- The greatest unsigned number in a word. -/
def greatestWord : Nat := 0xFFFFFFFFFFFFFFFF

/-- Signed numbers in a word reach from minus this number up to one below it. -/
def signedLimit : Nat := 0x8000000000000000

/-- Whether a signed word holds the number. -/
def fitsSigned (n : Int) : Bool :=
  decide (-(signedLimit : Int) ≤ n) && decide (n < signedLimit)

/-- Whether an unsigned word holds the number. -/
def fitsCount (n : Nat) : Bool := decide (n ≤ greatestWord)

/-- The signed number in a word that ends in the same bits. -/
def wrapSigned (n : Int) : Int := Int.bmod n (greatestWord + 1)

/-- The unsigned number in a word that ends in the same bits. -/
def wrapCount (n : Nat) : Nat := n % (greatestWord + 1)

/-- How a program was built: to break off at a number that no word holds, or to go on with its last
bits. -/
inductive Build where
  | checking
  | wrapping
deriving DecidableEq, Repr

theorem fitsCount_iff {n : Nat} : fitsCount n = true ↔ n ≤ greatestWord := decide_eq_true_iff

theorem fitsSigned_iff {n : Int} : fitsSigned n = true ↔ -(signedLimit : Int) ≤ n ∧ n < signedLimit := by
  rw [fitsSigned, Bool.and_eq_true, decide_eq_true_iff, decide_eq_true_iff]

theorem fitsCount_wrapCount (n : Nat) : fitsCount (wrapCount n) = true :=
  fitsCount_iff.2 (Nat.le_of_lt_succ (Nat.mod_lt n (Nat.succ_pos greatestWord)))

theorem fitsSigned_wrapSigned (n : Int) : fitsSigned (wrapSigned n) = true := by
  have low := @Int.le_bmod n (greatestWord + 1) (Nat.succ_pos greatestWord)
  have high := @Int.bmod_lt n (greatestWord + 1) (Nat.succ_pos greatestWord)
  rw [fitsSigned_iff, wrapSigned]
  simp only [greatestWord, signedLimit] at low high ⊢
  omega

namespace Build

/-- The signed word for a number that has been computed. -/
def signed? (b : Build) (n : Int) : Option Int :=
  if fitsSigned n then some n
  else
    match b with
    | checking => none
    | wrapping => some (wrapSigned n)

/-- The unsigned word for a number that has been computed. -/
def count? (b : Build) (n : Nat) : Option Nat :=
  if fitsCount n then some n
  else
    match b with
    | checking => none
    | wrapping => some (wrapCount n)

theorem signed?_eq {n : Int} (fits : fitsSigned n = true) (b : Build) : b.signed? n = some n :=
  if_pos fits

theorem count?_eq {n : Nat} (fits : fitsCount n = true) (b : Build) : b.count? n = some n :=
  if_pos fits

/-- What is computed fits, one way or the other. -/
theorem fits_of_signed? {b : Build} {n word : Int} (computed : b.signed? n = some word) :
    fitsSigned word = true := by
  unfold signed? at computed
  split at computed
  · rename_i fits
    cases computed
    exact fits
  · cases b with
    | checking => cases computed
    | wrapping =>
      cases computed
      exact fitsSigned_wrapSigned n

theorem fits_of_count? {b : Build} {n word : Nat} (computed : b.count? n = some word) :
    fitsCount word = true := by
  unfold count? at computed
  split at computed
  · rename_i fits
    cases computed
    exact fits
  · cases b with
    | checking => cases computed
    | wrapping =>
      cases computed
      exact fitsCount_wrapCount n

theorem signed?_eq_none {b : Build} {n : Int} (none_left : b.signed? n = none) : b = checking := by
  unfold signed? at none_left
  split at none_left
  · cases none_left
  · cases b with
    | checking => rfl
    | wrapping => cases none_left

theorem count?_eq_none {b : Build} {n : Nat} (none_left : b.count? n = none) : b = checking := by
  unfold count? at none_left
  split at none_left
  · cases none_left
  · cases b with
    | checking => rfl
    | wrapping => cases none_left

end Build

end FxPulse.Number
