import FxPulse.Json.Float

/-!
# `Json/Decode.lean` — values out of documents

A record is written as an object with a member for each field, or as an array of its fields in order.
In an object, members that are no field are passed over, but a field must not be written twice. A
choice between records is written as the record with one member more, its tag, which may stand
anywhere; as an array it begins with the tag.

To find the tag the whole object has to be read first. So what stands in it must be readable even
where it is not asked for: text that is text, numbers in range, nesting within bounds.
-/

set_option autoImplicit false

namespace FxPulse.Json

open FxPulse.Number

/-! ## Scalars -/

def text? : Json → Option String
  | .text literal => literal
  | _ => none

/-- A signed 64-bit integer. A number with a point or a power of ten is none, whatever its value. -/
def int? : Json → Option Int
  | .number n => n.integer?.filter fitsSigned
  | _ => none

/-- An unsigned 64-bit integer. -/
def nat? : Json → Option Nat
  | .number n => n.integer?.bind fun i => if 0 ≤ i ∧ i ≤ greatestWord then some i.toNat else none
  | _ => none

def float? : Json → Option Float
  | .number n => floatOf? n
  | _ => none

/-- `null` stands for nothing. -/
def orNull? {α : Type} (decode : Json → Option α) : Json → Option (Option α)
  | .null => some none
  | j => (decode j).map some

def list? {α : Type} (decode : Json → Option α) : Json → Option (List α)
  | .array items => items.mapM decode
  | _ => none

/-! ## Records -/

/-- The value of a field, unless it is written twice. -/
def soleMember? (members : List (Option String × Json)) (name : String) : Option (Option Json) :=
  match members.filter fun (key, _) => key == some name with
  | [] => some none
  | [(_, value)] => some (some value)
  | _ => none

/-- The values of the fields, in the order of their names; a field that an object lacks is `none`. -/
def fields? (names : List String) : Json → Option (List (Option Json))
  | .object members =>
    if members.all fun (key, _) => key.isSome then names.mapM (soleMember? members) else none
  | .array items => if items.length = names.length then some (items.map some) else none
  | _ => none

/-- A field that must be there. -/
def required? {α : Type} (decode : Json → Option α) (field : Option Json) : Option α :=
  field.bind decode

/-- A field that may be missing, or `null`. -/
def allowed? {α : Type} (decode : Json → Option α) : Option Json → Option (Option α)
  | none => some none
  | some j => orNull? decode j

/-! ## Names -/

/-- One of several names: its text, or an object with the name as its only member and nothing in
it. In a tagged record that nothing may also be an empty object. -/
def name? (tagged : Bool) : Json → Option String
  | .text literal => literal
  | .object [(key, .null)] => key
  | .object [(key, .object [])] => if tagged then key else none
  | _ => none

/-! ## Tagged records -/

/-- The deepest nesting that is read. -/
def deepest : Nat := 127

/-- Whether a document can be read without knowing what it is for, `above` levels of nesting being
around it. -/
def isReadable (above : Nat) (j : Json) : Bool :=
  decide (above + j.depth ≤ deepest) && j.allOf fun n => (floatOf? n).isSome

/-- The tag and the record without it. -/
def untag? (above : Nat) (tag : String) (j : Json) : Option (String × Json) :=
  if !isReadable above j then none
  else
    match j with
    | .object members => do
      let value ← (soleMember? members tag).join
      let name ← value.text?
      return (name, .object (members.filter fun (key, _) => key != some tag))
    | .array (first :: rest) => first.text?.map fun name => (name, .array rest)
    | _ => none

end FxPulse.Json
