import FxPulse.Failure
import FxPulse.Number.Reader
import FxPulse.Text.Split

/-!
# `Config/Reader.lean` — settings as text

A setting has a name and a text, which may be padded. Each reader here turns the text of one setting
into a value, or says what is wrong with it.
-/

set_option autoImplicit false

namespace FxPulse.Setting

open FxPulse.Number

/-- How a kind of number is read, and which of its values count as positive. -/
structure Kind (α : Type) where
  parse : String → Option α
  positive : α → Bool

/-- Counts up to `greatest`. -/
def count (greatest : Nat) : Kind Nat := ⟨natural? greatest, fun n => 0 < n⟩

/-- Counts in a 64-bit word. -/
def wordCount : Kind Nat := count greatestWord

/-- Signed integers. -/
def whole : Kind Int := ⟨integer?, fun n => 0 < n⟩

/-- Floats to be ranked. What is not a number is not refused as too small. -/
def ranked : Kind Ranked := ⟨Number.float?, fun x => !(x.toFloat ≤ 0.0)⟩

/-- Floats. -/
def real : Kind Float := ⟨fun text => (Number.float? text).map Ranked.toFloat, fun x => !(x ≤ 0.0)⟩

def refuse {α : Type} (cause : Misconfiguration) : Except Failure α := .error (.misconfigured cause)

/-- One value. -/
def one {α : Type} (kind : Kind α) (key raw : String) : Except Failure α :=
  match kind.parse (Text.trim raw) with
  | some value => .ok value
  | none => refuse (.unreadable key raw)

/-- One positive value. -/
def onePositive {α : Type} (kind : Kind α) (key raw : String) : Except Failure α := do
  let value ← one kind key raw
  if kind.positive value then return value else refuse (.notPositive key)

/-- An entry of the form `a:b` with two positive values. -/
def pair {α β : Type} (first : Kind α) (second : Kind β) (key entry : String) :
    Except Failure (α × β) :=
  match Text.cut? ':' entry.toList with
  | none => refuse (.notPair key entry)
  | some (a, b) => do
    let a ← one first key (String.ofList a)
    let b ← one second key (String.ofList b)
    if first.positive a && second.positive b then return (a, b)
    else refuse (.pairNotPositive key entry)

/-- A list of such entries. The first one that is wrong is named. -/
def pairs {α β : Type} (first : Kind α) (second : Kind β) (key raw : String) :
    Except Failure (List (α × β)) :=
  (Text.items raw).mapM (pair first second key)

end FxPulse.Setting
