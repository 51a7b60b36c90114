import FxPulse.Number.Layout

/-!
# `Json/Basic.lean` — JSON as written

Ticks arrive as JSON lines and answers leave as JSON. A document is kept the way it was written:
members in their order and as often as they occur, numbers as numerals. What an integer or a price
is, and whether a repeated member is an error, is for the reader of a particular shape to say.

A string literal may spell half of a surrogate pair, which is no text. Such a literal is well formed
JSON, and harmless where the document is only passed over, so it is a case of its own: `none`.
-/

set_option autoImplicit false

namespace FxPulse

open FxPulse.Number

inductive Json where
  | null
  | bool (value : Bool)
  | number (numeral : Numeral)
  | text (literal : Option String)
  | array (items : List Json)
  | object (members : List (Option String × Json))

namespace Json

instance : Inhabited Json := ⟨.null⟩

/-! ## Building documents -/

def str (s : String) : Json := .text (some s)

def int (n : Int) : Json :=
  .number ⟨decide (n < 0), (Nat.toDigits 10 n.natAbs), none, none⟩

def nat (n : Nat) : Json := int n

/-- JSON has no spelling for a float that is not finite; it is written as `null`. -/
def float (x : Float) : Json :=
  match numeral? x with
  | some n => .number n
  | none => .null

def record (members : List (String × Json)) : Json :=
  .object (members.map fun (key, value) => (some key, value))

/-- `null` for what is absent. -/
def optional {α : Type} (encode : α → Json) : Option α → Json
  | some a => encode a
  | none => .null

/-! ## Measures -/

mutual

/-- How deep arrays and objects are nested. -/
def depth : Json → Nat
  | .array items => depthOfItems items + 1
  | .object members => depthOfMembers members + 1
  | _ => 0

def depthOfItems : List Json → Nat
  | [] => 0
  | item :: rest => max (depth item) (depthOfItems rest)

def depthOfMembers : List (Option String × Json) → Nat
  | [] => 0
  | (_, value) :: rest => max (depth value) (depthOfMembers rest)

end

mutual

/-- Whether every number in the document passes the test and every literal is text. -/
def allOf (ok : Numeral → Bool) : Json → Bool
  | .number n => ok n
  | .text literal => literal.isSome
  | .array items => allOfItems ok items
  | .object members => allOfMembers ok members
  | _ => true

def allOfItems (ok : Numeral → Bool) : List Json → Bool
  | [] => true
  | item :: rest => allOf ok item && allOfItems ok rest

def allOfMembers (ok : Numeral → Bool) : List (Option String × Json) → Bool
  | [] => true
  | (key, value) :: rest => key.isSome && allOf ok value && allOfMembers ok rest

end

end Json

end FxPulse
