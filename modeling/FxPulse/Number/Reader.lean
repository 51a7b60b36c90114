import FxPulse.Number.Numeral
import FxPulse.Number.Ranked
import FxPulse.Number.Word

/-!
# `Number/Reader.lean` — numbers in settings

How a setting's text is read as a number. Counts and integers are a sign and decimal digits, within
the range of a 64-bit word. Floats also take a point with digits on either side of it or on both, a
power of ten, and the words for infinity and NaN in any case. Nothing else is let in: no blanks, no
separators between digits, no other base.
-/

set_option autoImplicit false

namespace FxPulse.Number

/-- A sign in front, and the rest. -/
def splitSign : List Char → Bool × List Char
  | '-' :: rest => (true, rest)
  | '+' :: rest => (false, rest)
  | text => (false, text)

/-- One digit or more, and nothing else. -/
def digits? (text : List Char) : Option Nat :=
  if !text.isEmpty && text.all Char.isDigit then some (ofDigits text) else none

/-- A count up to `greatest`; a plus sign may stand in front. -/
def natural? (greatest : Nat) (text : String) : Option Nat :=
  let body := match text.toList with
    | '+' :: rest => rest
    | body => body
  (digits? body).filter (· ≤ greatest)

/-- A signed 64-bit integer. -/
def integer? (text : String) : Option Int :=
  let (negative, body) := splitSign text.toList
  (digits? body).bind fun n =>
    let value : Int := if negative then -n else n
    if fitsSigned value then some value else none

/-- The power of ten at the end of a float: nothing, or a letter, a sign and digits. -/
def exponent? : List Char → Option (Option Int)
  | [] => some none
  | c :: rest =>
    if c == 'e' || c == 'E' then
      let (negative, body) := splitSign rest
      (digits? body).map fun n => some (if negative then -n else n)
    else none

/-- Digits, perhaps a point and more digits, perhaps a power of ten; at least one digit. -/
def numeralOf? (negative : Bool) (text : List Char) : Option Numeral :=
  let whole := text.takeWhile Char.isDigit
  let rest := text.dropWhile Char.isDigit
  let (fraction, rest) : Option (List Char) × List Char := match rest with
    | '.' :: more => (some (more.takeWhile Char.isDigit), more.dropWhile Char.isDigit)
    | rest => (none, rest)
  if whole.isEmpty && (fraction.getD []).isEmpty then none
  else (exponent? rest).map fun e => ⟨negative, whole, fraction, e⟩

/-- A float. A NaN with a minus sign ranks below every number. -/
def float? (text : String) : Option Ranked :=
  let (negative, body) := splitSign text.toList
  let word := String.ofList (body.map Char.toLower)
  if word == "nan" then
    some (if negative then .lowestNaN else .float (0.0 / 0.0))
  else if word == "inf" || word == "infinity" then
    some (.float (if negative then -(1.0 / 0.0) else 1.0 / 0.0))
  else
    (numeralOf? negative body).map fun n => .float n.nearest

end FxPulse.Number
