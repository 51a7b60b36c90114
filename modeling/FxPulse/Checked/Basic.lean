import FxPulse.Failure
import FxPulse.Number.Word

/-!
# `Checked/Basic.lean` — steps that can break off

Where a program reads an element, cuts out a stretch, subtracts or divides without asking first, it
breaks off when there is nothing there; and where it adds up what no word holds it breaks off or goes
on with another number, as it was built. The definitions outside this folder leave that out: they read
elements that may be missing, cut stretches that end where their array ends, and compute with numbers of
any size.

Here are the operations that do break off. The other files of this folder write the definitions out with
them, at the places where nobody asks first. They are what runs where an answer depends on it; that they
come to the same as the others wherever no number is too large is proved beside them.

A division by a number that is written out, such as the milliseconds of a minute, is left as it is.
-/

set_option autoImplicit false

namespace FxPulse

open FxPulse.Number

/-- What a step breaks off at. -/
inductive Breach where
  | noElement (place size : Nat)
  | noStretch (start stop size : Nat)
  | belowZero (a b : Nat)
  | byZero (a : Nat)
  /-- A number that no word holds. -/
  | overflow (exact : Int)
deriving DecidableEq, Repr

/-- Why a checked operation has no answer: it broke off, or it refuses as the operation itself does. -/
inductive Halt where
  | breach (cause : Breach)
  | failure (cause : Failure)
deriving DecidableEq, Repr

abbrev Checked (α : Type) := Except Halt α

/-- What an operation refuses, it also refuses among checked ones. -/
instance : MonadLift (Except Failure) Checked := ⟨Except.mapError .failure⟩

namespace Checked

variable {α : Type}

def element (xs : Array α) (place : Nat) : Checked α :=
  match xs[place]? with
  | some x => .ok x
  | none => .error (.breach (.noElement place xs.size))

/-- The elements from `start` on, up to the one before `stop`. -/
def stretch (xs : Array α) (start stop : Nat) : Checked (Array α) :=
  if start ≤ stop ∧ stop ≤ xs.size then .ok (xs.extract start stop)
  else .error (.breach (.noStretch start stop xs.size))

/-- The array with another element at a place. -/
def write (xs : Array α) (place : Nat) (x : α) : Checked (Array α) :=
  if place < xs.size then .ok (xs.setIfInBounds place x)
  else .error (.breach (.noElement place xs.size))

def difference (a b : Nat) : Checked Nat :=
  if b ≤ a then .ok (a - b) else .error (.breach (.belowZero a b))

def remainder (a b : Nat) : Checked Nat :=
  if b = 0 then .error (.breach (.byZero a)) else .ok (a % b)

/-- A signed number that has been computed. -/
def signed (b : Build) (n : Int) : Checked Int :=
  match b.signed? n with
  | some word => .ok word
  | none => .error (.breach (.overflow n))

/-- An unsigned number that has been computed. -/
def count (b : Build) (n : Nat) : Checked Nat :=
  match b.count? n with
  | some word => .ok word
  | none => .error (.breach (.overflow n))

end Checked

end FxPulse
