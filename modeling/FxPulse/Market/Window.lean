import FxPulse.Failure
import FxPulse.Market.Quote
import FxPulse.Number.Reader
import FxPulse.Text.Blank

/-!
# `Market/Window.lean` — trailing windows

A window is a length of time with a name, such as `15m` or `4h`: a count and a unit of one letter. Its
length is a whole number of any size here; `Checked/Config.lean` reads it in words.
-/

set_option autoImplicit false

namespace FxPulse

open FxPulse.Number

structure Window where
  label : String
  length : Int
deriving DecidableEq, Repr

namespace Window

/-- The minutes in a unit. -/
def unit? : Char → Option Int
  | 'm' => some minute
  | 'h' => some (60 * minute)
  | 'd' => some (24 * 60 * minute)
  | _ => none

/-- Reads a label, which may be padded. The unit is the last byte; a label that ends in a longer
character cannot be cut there. -/
def ofLabel (text : String) : Except Fault (Option Window) :=
  let label := Text.trim text
  match label.toList.getLast? with
  | none => .ok none
  | some last =>
    if label.utf8ByteSize < 2 then .ok none
    else if last.utf8Size ≠ 1 then .error (.unitInsideCharacter label)
    else
      .ok do
        let count ← (integer? (String.ofList label.toList.dropLast)).filter (0 < ·)
        let unit ← unit? last
        return ⟨label, count * unit⟩

end Window

end FxPulse
