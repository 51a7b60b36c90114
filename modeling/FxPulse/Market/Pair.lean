import Std.Data.ExtTreeMap
import FxPulse.Text.Split

/-!
# `Market/Pair.lean` — instruments that quote one currency in another

An instrument's name carries its two currencies: three capitals each, perhaps set off by a slash, a
dash or an underscore, perhaps followed by whatever the broker appends. The unit of price moves, the
pip, follows from the quote currency unless it is given for the instrument.
-/

set_option autoImplicit false

namespace FxPulse

structure Pair where
  base : String
  quote : String
deriving DecidableEq, Repr

namespace Pair

def isSeparator (c : Char) : Bool := c == '/' || c == '_' || c == '-'

def ofInstrument? (instrument : String) : Option Pair :=
  let letters := (instrument.toList.filter fun c => !isSeparator c).take 6
  if letters.length = 6 ∧ letters.all Char.isUpper then
    some ⟨String.ofList (letters.take 3), String.ofList (letters.drop 3)⟩
  else none

/-- Whether both currencies are among the given ones. -/
def within (p : Pair) (currencies : List String) : Bool :=
  currencies.contains p.base && currencies.contains p.quote

end Pair

/-- Pip sizes given for single instruments. -/
structure PipSizes where
  given : Std.ExtTreeMap String Float

namespace PipSizes

/-- Of two sizes for one instrument the later counts. -/
def ofList (sizes : List (String × Float)) : PipSizes :=
  ⟨sizes.foldl (fun given (symbol, pip) => given.insert symbol pip) ∅⟩

/-- A pip is a hundredth of a yen, and a ten-thousandth of any other quote currency. -/
def pip (sizes : PipSizes) (symbol : String) : Float :=
  match sizes.given[symbol]? with
  | some given => given
  | none =>
    match Pair.ofInstrument? symbol with
    | some pair => if pair.quote == "JPY" then 0.01 else 0.0001
    | none => 0.0001

end PipSizes

end FxPulse
