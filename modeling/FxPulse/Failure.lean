import FxPulse.Number.Layout

/-!
# `Failure.lean` — what can go wrong, and how it is said

Two kinds of trouble are kept apart. A `Fault` is a step that has no answer, such as the bar after
the last one: the operation stops there, and says nothing. A `Failure` is an answer in its own right,
a refusal with a cause. Causes are data; their wording is one function per type, here.
-/

set_option autoImplicit false

namespace FxPulse

open FxPulse.Number

/-- A step that has no answer. -/
inductive Fault where
  /-- The last byte of a window label is no character of its own, so no unit can be cut off. -/
  | unitInsideCharacter (label : String)
  /-- A volatility regime compares a short window with a long one that is shorter. -/
  | shortWindowTooLong (short long : Nat)
  /-- An outcome's horizon ends before the first bar. -/
  | horizonBeforeBars (bar : Nat)
  /-- A bar is asked for that does not exist. -/
  | noSuchBar (index : Nat)
  /-- No memory can hold a ring of this capacity. -/
  | ringTooLarge (capacity : Nat)
deriving DecidableEq, Repr

/-- Text that spells no direction or no state key. -/
inductive Malformed where
  | unknownDirection (text : String)
  | notAssignment (part : String)
  | badAssignment (part : String)
deriving DecidableEq, Repr

def Malformed.message : Malformed → String
  | .unknownDirection text => "unknown direction '" ++ text ++ "'"
  | .notAssignment part => "state key component '" ++ part ++ "' is not name=value"
  | .badAssignment part => "state key component '" ++ part ++ "' is malformed"

/-- Why a quote or a stored row is refused. -/
inductive Rejection where
  | badPrices (bid ask : Float)
  | timeRegressed (ts last : Int)
  | malformed (cause : Malformed)
  | badCounts (successes total : Int)
deriving DecidableEq, Repr

def Rejection.message : Rejection → String
  | .badPrices bid ask =>
    "bid/ask must be positive and finite (bid=" ++ plainText bid ++ ", ask=" ++ plainText ask ++ ")"
  | .timeRegressed ts last =>
    "timestamp " ++ toString ts ++ " precedes last recorded " ++ toString last
  | .malformed cause => cause.message
  | .badCounts successes total => "bad counts " ++ toString successes ++ "/" ++ toString total

/-- What is asked for and not there. -/
inductive Missing where
  | history (instrument : String)
  | strengthHistory (currency window : String)
  | rows (symbol : String)
deriving DecidableEq, Repr

def Missing.message : Missing → String
  | .history instrument => "no history for " ++ instrument
  | .strengthHistory currency window => "no strength history for " ++ currency ++ " " ++ window
  | .rows symbol => "no probability rows for " ++ symbol

/-- Why a bar cannot be scanned. -/
inductive BarDefect where
  | badPrices (prices : List Float)
  | notAfter (ts previous : Int)
deriving DecidableEq, Repr

def BarDefect.message : BarDefect → String
  | .badPrices prices => "bad OHLC [" ++ ", ".intercalate (prices.map exactText) ++ "]"
  | .notAfter ts previous => "timestamp " ++ toString ts ++ " not after " ++ toString previous

/-- What is wrong with a setting. `key` is the setting's name. -/
inductive Misconfiguration where
  | badWindowLabel (label : String)
  | noWindows
  | unlistedOscillatorWindow (label : String)
  | unreadable (key raw : String)
  | notPair (key entry : String)
  | pairNotPositive (key entry : String)
  | notPositive (key : String)
  | negativeGap
  | badVolatilityWindows
  | badPipEntry (entry : String)
  | pipNotPositive (symbol : String)
  | bandsCrossed
deriving DecidableEq, Repr

def Misconfiguration.message : Misconfiguration → String
  | .badWindowLabel label => "WINDOWS: bad label '" ++ label ++ "'"
  | .noWindows => "WINDOWS must name at least one window"
  | .unlistedOscillatorWindow label => "OSC_WINDOW '" ++ label ++ "' is not one of WINDOWS"
  | .unreadable key raw => key ++ ": cannot parse '" ++ raw ++ "'"
  | .notPair key entry => key ++ ": expected 'a:b', got '" ++ entry ++ "'"
  | .pairNotPositive key entry => key ++ ": values must be positive in '" ++ entry ++ "'"
  | .notPositive key => key ++ " must be positive"
  | .negativeGap => "BURST_GAP_MINUTES must not be negative"
  | .badVolatilityWindows =>
    "STATE_VOL_WINDOWS must be a single 'short:long' pair with 2 <= short < long"
  | .badPipEntry entry => "PIP_SIZES: bad entry '" ++ entry ++ "'"
  | .pipNotPositive symbol => "PIP_SIZES: non-positive pip for " ++ symbol
  | .bandsCrossed => "OVERSOLD must be below OVERBOUGHT"

/-- A refusal, or the fault that prevented an answer. A job that faults among others is a refusal too:
it has no answer, but the others have theirs. -/
inductive Failure where
  | invalidInput (instrument : String) (reason : Rejection)
  | notAvailable (what : Missing)
  | scanAborted (symbol : String) (bar : Nat) (reason : BarDefect)
  | cancelled (symbol : String)
  | misconfigured (cause : Misconfiguration)
  | malformed (cause : Malformed)
  | malformedJson
  | storage
  | unreadableInput
  | unfinishedJob (cause : Fault)
  | fault (fault : Fault)
deriving DecidableEq, Repr

namespace Failure

/-- The wording of a refusal; a fault has none. -/
def message : Failure → String
  | .invalidInput instrument reason => "Invalid input for " ++ instrument ++ ": " ++ reason.message
  | .notAvailable what => "Not available: " ++ what.message
  | .scanAborted symbol bar reason =>
    "Scan aborted for " ++ symbol ++ " at bar " ++ toString bar ++ ": " ++ reason.message
  | .cancelled symbol => "Scan cancelled for " ++ symbol
  | .misconfigured cause => "Configuration error: " ++ cause.message
  | .malformed cause => cause.message
  | .malformedJson => "JSON parse error"
  | .storage => "Database error"
  | .unreadableInput => "IO error"
  | .unfinishedJob _ => "Task join error"
  | .fault _ => ""

/-- What a failure is to the jobs beside the one that failed: its fault ends that job alone. -/
def ofJob : Failure → Failure
  | .fault cause => .unfinishedJob cause
  | refusal => refusal

end Failure

/-- An operation that can only fault, among operations that can also refuse. -/
def Except.orFault {α : Type} : Except Fault α → Except Failure α
  | .ok a => .ok a
  | .error f => .error (.fault f)

instance : MonadLift (Except Fault) (Except Failure) := ⟨Except.orFault⟩

end FxPulse
