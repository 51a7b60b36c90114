import FxPulse.Failure

/-!
# `Market/Direction.lean` — up and down
-/

set_option autoImplicit false

namespace FxPulse

inductive Direction where
  | up
  | down
deriving DecidableEq, Repr, Inhabited

namespace Direction

/-- A price that did not move, and a move that is not a number, have no direction. -/
def ofMove? (delta : Float) : Option Direction :=
  if delta > 0.0 then some .up
  else if delta < 0.0 then some .down
  else none

def sign : Direction → Float
  | .up => 1.0
  | .down => -1.0

def text : Direction → String
  | .up => "up"
  | .down => "down"

def ofText (text : String) : Except Malformed Direction :=
  match text with
  | "up" => .ok .up
  | "down" => .ok .down
  | other => .error (.unknownDirection other)

/-- Up comes before down where rows are sorted. -/
def rank : Direction → Nat
  | .up => 0
  | .down => 1

instance : Ord Direction := ⟨compareOn rank⟩

instance : Std.TransOrd Direction :=
  inferInstanceAs (Std.TransCmp (compareOn rank))

instance : Std.LawfulEqOrd Direction where
  eq_of_compare {a b} := by cases a <;> cases b <;> decide

end Direction

end FxPulse
