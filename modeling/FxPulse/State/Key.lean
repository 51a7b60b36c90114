import FxPulse.Failure
import FxPulse.Text.Split

/-!
# `State/Key.lean` — the state of the market, as a key

History is sorted by the state the market was in. A state key lists what is known of it as names with
values, the most important first, so that leaving out the last ones gives coarser and coarser keys
down to the empty one. Its text joins names and values with `=` and `;`; the empty key is `*`.
-/

set_option autoImplicit false

namespace FxPulse

/-- One thing known about the state. -/
structure StatePart where
  name : String
  value : String
deriving DecidableEq, Repr

namespace StatePart

instance : Ord StatePart := ⟨compareLex (compareOn (·.name)) (compareOn (·.value))⟩

instance : Std.TransOrd StatePart :=
  inferInstanceAs (Std.TransCmp (compareLex _ _))

instance : Std.LawfulEqOrd StatePart where
  eq_of_compare {a b} h := by
    have ⟨name, last⟩ := compareLex_eq_eq.1 h
    have name : a.name = b.name := Std.LawfulEqOrd.eq_of_compare name
    have value : a.value = b.value := Std.LawfulEqOrd.eq_of_compare last
    cases a
    cases b
    simp_all

def text (p : StatePart) : String := p.name ++ "=" ++ p.value

/-- A name and a value, neither empty, with the only equals sign between them. -/
def ofChars (part : List Char) : Except Malformed StatePart :=
  match Text.cut? '=' part with
  | none => .error (.notAssignment (String.ofList part))
  | some (name, value) =>
    if name.isEmpty || value.isEmpty || value.contains '=' then
      .error (.badAssignment (String.ofList part))
    else .ok ⟨String.ofList name, String.ofList value⟩

end StatePart

structure StateKey where
  parts : List StatePart
deriving DecidableEq, Repr

namespace StateKey

instance : Ord StateKey := ⟨compareOn (·.parts)⟩

instance : Std.TransOrd StateKey :=
  inferInstanceAs (Std.TransCmp (compareOn _))

instance : Std.LawfulEqOrd StateKey where
  eq_of_compare {a b} h := by
    cases a
    cases b
    exact congrArg StateKey.mk (Std.LawfulEqOrd.eq_of_compare h)

def empty : StateKey := ⟨[]⟩

instance : EmptyCollection StateKey := ⟨empty⟩

instance : Inhabited StateKey := ⟨empty⟩

/-- The key with one thing more. -/
def push (k : StateKey) (name value : String) : StateKey := ⟨k.parts ++ [⟨name, value⟩]⟩

def size (k : StateKey) : Nat := k.parts.length

def isEmpty (k : StateKey) : Bool := k.parts.isEmpty

/-- The first `n` parts. -/
def take (k : StateKey) (n : Nat) : StateKey := ⟨k.parts.take n⟩

/-- The key and all coarser ones, down to the empty key. -/
def levels (k : StateKey) : List StateKey :=
  (List.range (k.size + 1)).reverse.map k.take

def text (k : StateKey) : String :=
  if k.isEmpty then "*" else ";".intercalate (k.parts.map StatePart.text)

def ofText (text : String) : Except Malformed StateKey :=
  if text == "*" then .ok empty
  else (StateKey.mk ·) <$> (Text.pieces ';' text.toList).mapM StatePart.ofChars

end StateKey

end FxPulse
