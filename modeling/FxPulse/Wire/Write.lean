import FxPulse.Edge.Match
import FxPulse.Json.Basic
import FxPulse.Oscillator.Source
import FxPulse.Strength.Votes

/-!
# `Wire/Write.lean` — domain values as JSON
-/

set_option autoImplicit false

namespace FxPulse

def Tick.toJson (t : Tick) : Json :=
  .record [("instrument", .str t.instrument), ("bid", .float t.bid), ("ask", .float t.ask),
    ("ts_ms", .int t.ts)]

def Point.toJson (p : Point) : Json := .record [("ts_ms", .int p.ts), ("value", .float p.value)]

def Bar.toJson (b : Bar) : Json :=
  .record [("ts_ms", .int b.ts), ("open", .float b.openPrice), ("high", .float b.high),
    ("low", .float b.low), ("close", .float b.close)]

def Direction.toJson (d : Direction) : Json := .str d.text

def Window.toJson (w : Window) : Json :=
  .record [("label", .str w.label), ("length_ms", .int w.length)]

def Change.toJson (c : Change) : Json :=
  .record [("label", .str c.label), ("pct", .float c.percent)]

def Changes.toJson (c : Changes) : Json :=
  .record [("changes", .array (c.toList.map Change.toJson))]

def Strengths.toJson (s : Strengths) : Json :=
  .record (s.toList.map fun (currency, changes) => (currency, changes.toJson))

def Trigger.toJson (t : Trigger) : Json :=
  .record [("min_pips", .float t.minPips.toFloat), ("window_minutes", .int t.minutes)]

def Outcome.toJson (o : Outcome) : Json :=
  .record [("target_pips", .float o.targetPips), ("horizon_minutes", .int o.minutes)]

def StateKey.toJson (k : StateKey) : Json := .str k.text

/-- The members of a row. -/
def Row.members (r : Row) : List (String × Json) :=
  [("symbol", .str r.symbol), ("trigger_label", .str r.key.trigger),
    ("outcome_label", .str r.key.outcome), ("direction", r.key.direction.toJson),
    ("state_key", r.key.state.toJson), ("successes", .nat r.counts.successes),
    ("total", .nat r.counts.total), ("probability", .float r.probability.toFloat)]

def Row.toJson (r : Row) : Json := .record r.members

def Tier.toJson (t : Tier) : Json := .str t.text

def Source.toJson : Source → Json
  | .price instrument => .record [("source", .str "price"), ("instrument", .str instrument)]
  | .strength currency window =>
    .record [("source", .str "strength"), ("currency", .str currency), ("window", .str window)]
  | .differential base quote window =>
    .record [("source", .str "differential"), ("base", .str base), ("quote", .str quote),
      ("window", .str window)]

def OscillatorKind.toJson : OscillatorKind → Json
  | .rsi period => .record [("type", .str "rsi"), ("period", .nat period)]
  | .stochastic k d =>
    .record [("type", .str "stochastic"), ("k_period", .nat k), ("d_period", .nat d)]
  | .zScore window => .record [("type", .str "z_score"), ("window", .nat window)]
  | .percentRank window => .record [("type", .str "percent_rank"), ("window", .nat window)]

def Bands.toJson (b : Bands) : Json :=
  .record [("overbought", .float b.overbought), ("oversold", .float b.oversold)]

def OscillatorSpec.toJson (s : OscillatorSpec) : Json :=
  .record [("source", s.source.toJson), ("kind", s.kind.toJson), ("thresholds", s.bands.toJson)]

def Zone.text : Zone → String
  | .overbought => "overbought"
  | .oversold => "oversold"
  | .neutral => "neutral"

def Zone.toJson (z : Zone) : Json := .str z.text

def OscillatorOutput.toJson : OscillatorOutput → Json
  | .insufficient seen needed =>
    .record [("status", .str "insufficient"), ("have", .nat seen), ("need", .nat needed)]
  | .ready r =>
    .record [("status", .str "ready"), ("ts_ms", .int r.ts), ("value", .float r.value),
      ("signal", .optional .float r.signal), ("zone", r.zone.toJson)]

def NoMatch.members : NoMatch → List (String × Json)
  | .noHistory => [("reason", .str "no_history")]
  | .noTrigger => [("reason", .str "no_trigger")]
  | .noRows => [("reason", .str "no_rows")]
  | .insufficientSample bestTotal =>
    [("reason", .str "insufficient_sample"), ("best_total", .nat bestTotal)]

def EdgeMatch.toJson : EdgeMatch → Json
  | .matched r =>
    .record [("status", .str "matched"), ("trigger_label", .str r.trigger),
      ("direction", r.direction.toJson), ("move_pips", .float r.movePips),
      ("state_key", r.state.toJson), ("exact_state", .bool r.exact), ("row", r.row.toJson)]
  | .noMatch reason => .record (("status", .str "no_match") :: reason.members)

end FxPulse
