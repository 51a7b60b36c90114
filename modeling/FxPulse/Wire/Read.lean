import FxPulse.Json.Decode
import FxPulse.Oscillator.Source
import FxPulse.Market.Changes
import FxPulse.Market.Window
import FxPulse.Burst.Basic
import FxPulse.Table.Row

/-!
# `Wire/Read.lean` — domain values out of JSON
-/

set_option autoImplicit false

namespace FxPulse

open FxPulse.Number

def Tick.ofJson? (j : Json) : Option Tick := do
  let [instrument, bid, ask, ts] ← j.fields? ["instrument", "bid", "ask", "ts_ms"] | none
  return ⟨← Json.required? Json.text? instrument, ← Json.required? Json.float? bid,
    ← Json.required? Json.float? ask, ← Json.required? Json.int? ts⟩

def Point.ofJson? (j : Json) : Option Point := do
  let [ts, value] ← j.fields? ["ts_ms", "value"] | none
  return ⟨← Json.required? Json.int? ts, ← Json.required? Json.float? value⟩

def Bar.ofJson? (j : Json) : Option Bar := do
  let [ts, first, high, low, close] ← j.fields? ["ts_ms", "open", "high", "low", "close"] | none
  return ⟨← Json.required? Json.int? ts, ← Json.required? Json.float? first,
    ← Json.required? Json.float? high, ← Json.required? Json.float? low,
    ← Json.required? Json.float? close⟩

def Direction.ofJson? (j : Json) : Option Direction :=
  match j.name? false with
  | some "up" => some .up
  | some "down" => some .down
  | _ => none

def Window.ofJson? (j : Json) : Option Window := do
  let [label, length] ← j.fields? ["label", "length_ms"] | none
  return ⟨← Json.required? Json.text? label, ← Json.required? Json.int? length⟩

def Change.ofJson? (j : Json) : Option Change := do
  let [label, percent] ← j.fields? ["label", "pct"] | none
  return ⟨← Json.required? Json.text? label, ← Json.required? Json.float? percent⟩

def Changes.ofJson? (j : Json) : Option Changes := do
  let [changes] ← j.fields? ["changes"] | none
  return ⟨← Json.required? (Json.list? Change.ofJson?) changes⟩

def Trigger.ofJson? (j : Json) : Option Trigger := do
  let [minPips, minutes] ← j.fields? ["min_pips", "window_minutes"] | none
  return ⟨.float (← Json.required? Json.float? minPips), ← Json.required? Json.int? minutes⟩

def Outcome.ofJson? (j : Json) : Option Outcome := do
  let [targetPips, minutes] ← j.fields? ["target_pips", "horizon_minutes"] | none
  return ⟨← Json.required? Json.float? targetPips, ← Json.required? Json.int? minutes⟩

def StateKey.ofJson? (j : Json) : Option StateKey := do
  (StateKey.ofText (← j.text?)).toOption

def Row.ofJson? (j : Json) : Option Row := do
  let [symbol, trigger, outcome, direction, state, successes, total, probability] ←
    j.fields? ["symbol", "trigger_label", "outcome_label", "direction", "state_key", "successes",
      "total", "probability"] | none
  let key : RowKey := ⟨← Json.required? Json.text? trigger, ← Json.required? Json.text? outcome,
    ← Json.required? Direction.ofJson? direction, ← Json.required? StateKey.ofJson? state⟩
  let counts : Counts := ⟨← Json.required? Json.nat? successes, ← Json.required? Json.nat? total⟩
  return ⟨← Json.required? Json.text? symbol, key, counts,
    .float (← Json.required? Json.float? probability)⟩

def Tier.ofJson? (j : Json) : Option Tier :=
  match j.name? false with
  | some "low" => some .low
  | some "medium" => some .medium
  | some "high" => some .high
  | _ => none

def Source.ofJson? (above : Nat) (j : Json) : Option Source := do
  match ← j.untag? above "source" with
  | ("price", record) =>
    let [instrument] ← record.fields? ["instrument"] | none
    return .price (← Json.required? Json.text? instrument)
  | ("strength", record) =>
    let [currency, window] ← record.fields? ["currency", "window"] | none
    return .strength (← Json.required? Json.text? currency) (← Json.required? Json.text? window)
  | ("differential", record) =>
    let [base, quote, window] ← record.fields? ["base", "quote", "window"] | none
    return .differential (← Json.required? Json.text? base) (← Json.required? Json.text? quote)
      (← Json.required? Json.text? window)
  | _ => none

def OscillatorKind.ofJson? (above : Nat) (j : Json) : Option OscillatorKind := do
  match ← j.untag? above "type" with
  | ("rsi", record) =>
    let [period] ← record.fields? ["period"] | none
    return .rsi (← Json.required? Json.nat? period)
  | ("stochastic", record) =>
    let [k, d] ← record.fields? ["k_period", "d_period"] | none
    return .stochastic (← Json.required? Json.nat? k) (← Json.required? Json.nat? d)
  | ("z_score", record) =>
    let [window] ← record.fields? ["window"] | none
    return .zScore (← Json.required? Json.nat? window)
  | ("percent_rank", record) =>
    let [window] ← record.fields? ["window"] | none
    return .percentRank (← Json.required? Json.nat? window)
  | _ => none

def Bands.ofJson? (j : Json) : Option Bands := do
  let [overbought, oversold] ← j.fields? ["overbought", "oversold"] | none
  return ⟨← Json.required? Json.float? overbought, ← Json.required? Json.float? oversold⟩

def OscillatorSpec.ofJson? (j : Json) : Option OscillatorSpec := do
  let [source, kind, bands] ← j.fields? ["source", "kind", "thresholds"] | none
  return ⟨← Json.required? (Source.ofJson? 1) source, ← Json.required? (OscillatorKind.ofJson? 1) kind,
    ← Json.required? Bands.ofJson? bands⟩

def Zone.ofJson? (j : Json) : Option Zone :=
  match j.name? true with
  | some "overbought" => some .overbought
  | some "oversold" => some .oversold
  | some "neutral" => some .neutral
  | _ => none

def OscillatorOutput.ofJson? (j : Json) : Option OscillatorOutput := do
  match ← j.untag? 0 "status" with
  | ("insufficient", record) =>
    let [seen, needed] ← record.fields? ["have", "need"] | none
    return .insufficient (← Json.required? Json.nat? seen) (← Json.required? Json.nat? needed)
  | ("ready", record) =>
    let [ts, value, signal, zone] ← record.fields? ["ts_ms", "value", "signal", "zone"] | none
    return .ready ⟨← Json.required? Json.int? ts, ← Json.required? Json.float? value,
      ← Json.allowed? Json.float? signal, ← Json.required? Zone.ofJson? zone⟩
  | _ => none

end FxPulse
