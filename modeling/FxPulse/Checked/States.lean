import FxPulse.Checked.Basic
import FxPulse.Market.Pair
import FxPulse.State.Spec

/-!
# `Checked/States.lean` — states of the market, and the names of pairs

The ends of the closes are cut off by counting back from their number, each time after asking whether
there are enough of them. How many that are is computed from the settings, and may be more than a word
holds.

A pair is cut out of a name letter by letter. That the letters are capitals is known by then, and a
capital takes one byte, so places of letters are places of bytes.
-/

set_option autoImplicit false

namespace FxPulse.Checked

open FxPulse.Number

/-! ## Closes -/

section Closes

variable (b : Build)

def rsiValue (closes : Array Float) (period : Nat) : Checked String := do
  let need ← count b (StateSpec.rsiCloses period)
  if closes.size < need then return StateSpec.unknown
  let tail ← stretch closes (← difference closes.size need) closes.size
  match Rsi.ofValues? tail.toList period with
  | some rsi => return toString (StateSpec.tenth rsi)
  | none => return StateSpec.unknown

/-- The step inside each two neighbours. -/
def steps (values : Array Float) : Checked (List Float) :=
  (List.range (values.size - 1)).mapM fun i => do
    let neighbours ← stretch values i (i + 2)
    return (← element neighbours 1) - (← element neighbours 0)

def volatilityValue (closes : Array Float) (short long : Nat) : Checked String := do
  let need ← count b (long + 1)
  if closes.size < need then return StateSpec.unknown
  let tail ← stretch closes (← difference closes.size need) closes.size
  let changes := (← steps tail).toArray
  let recent ← stretch changes (← difference changes.size short) changes.size
  return StateSpec.regime (deviation recent.toList) (deviation changes.toList)

/-- The part of the key that tells relative strength, if it is asked for. -/
def rsiKey (s : StateSpec) (closes : Array Float) : Checked StateKey :=
  match s.rsiPeriod with
  | some period => do return StateKey.empty.push "rsi" (← rsiValue b closes period)
  | none => return StateKey.empty

def compute (s : StateSpec) (closes : Array Float) : Checked StateKey := do
  let key ← rsiKey b s closes
  match s.volatility with
  | some (short, long) => return key.push "vol" (← volatilityValue b closes short long)
  | none => return key

/-- The closes that relative strength takes, if it is asked for. -/
def rsiLookback (s : StateSpec) : Checked Nat :=
  match s.rsiPeriod with
  | some period => count b (StateSpec.rsiCloses period)
  | none => return 0

/-- The closes that the volatility regime takes, if it is asked for. -/
def volatilityLookback (s : StateSpec) : Checked Nat :=
  match s.volatility with
  | some (_, long) => count b (long + 1)
  | none => return 0

def lookback (s : StateSpec) : Checked Nat := do
  return max (← rsiLookback b s) (← volatilityLookback b s)

end Closes

/-! ## Keys -/

def levels (k : StateKey) : Checked (List StateKey) :=
  (List.range (k.size + 1)).reverse.mapM fun n => do
    return ⟨(← stretch k.parts.toArray 0 n).toList⟩

/-! ## Pairs -/

def pairOf (instrument : String) : Checked (Option Pair) := do
  let letters := ((instrument.toList.filter fun c => !Pair.isSeparator c).take 6).toArray
  if letters.size = 6 ∧ letters.toList.all Char.isUpper then
    let base ← stretch letters 0 3
    let quote ← stretch letters 3 letters.size
    return some ⟨String.ofList base.toList, String.ofList quote.toList⟩
  else return none

def pip (sizes : PipSizes) (symbol : String) : Checked Float := do
  match sizes.given[symbol]? with
  | some given => return given
  | none =>
    match ← pairOf symbol with
    | some pair => return if pair.quote == "JPY" then 0.01 else 0.0001
    | none => return 0.0001

end FxPulse.Checked
