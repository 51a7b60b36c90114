import FxPulse.Burst.Basic
import FxPulse.Config.Reader
import FxPulse.Edge.Match
import FxPulse.Market.Pair
import FxPulse.Market.Window
import FxPulse.Oscillator.Basic
import FxPulse.Scan.Basic
import FxPulse.State.Spec

/-!
# `Config/Basic.lean` — the configuration

Every setting has a default, so any look-up of texts by name can be read as a configuration. Settings
are read in a fixed order and the first one that is wrong is the one reported.

Lengths of time are whole numbers of any size here. `Checked/Config.lean` reads them in words.
-/

set_option autoImplicit false

namespace FxPulse

open FxPulse.Number

structure OscillatorSettings where
  /-- The window whose strengths feed the oscillators. -/
  window : String
  rsiPeriod : Nat
  stochasticK : Nat
  stochasticD : Nat
  zScoreWindow : Nat
  rankWindow : Nat
  bands : Bands
  /-- The distance from zero at which a z-score is extreme. -/
  zScoreBand : Float

structure Config where
  logLevel : String
  databasePath : String
  apiPort : Nat
  currencies : List String
  windows : List Window
  retentionSlack : Int
  /-- Milliseconds between refreshes. -/
  refreshInterval : Nat
  oscillators : OscillatorSettings
  triggers : List Trigger
  outcomes : List Outcome
  burstGap : Int
  minTotal : Nat
  alpha : Float
  state : StateSpec
  pips : PipSizes
  /-- The symbols to scan; all of them if none is named. -/
  scanSymbols : List String
  /-- Seconds between reloads of the table. -/
  tableReload : Nat

namespace Config

/-- The texts of settings by name; a setting may be unset. -/
abbrev Lookup := String → Option String

/-- The names of all settings. -/
def names : List String :=
  ["LOG_LEVEL", "DB_PATH", "API_PORT", "CURRENCIES", "WINDOWS", "RETENTION_SLACK_MINUTES",
    "REFRESH_INTERVAL_MS", "OSC_WINDOW", "RSI_PERIOD", "STOCH_K", "STOCH_D", "ZSCORE_WINDOW",
    "PRANK_WINDOW", "OVERBOUGHT", "OVERSOLD", "ZSCORE_BAND", "TRIGGER_GRID", "OUTCOME_GRID",
    "BURST_GAP_MINUTES", "N_MIN", "LAPLACE_ALPHA", "STATE_RSI_PERIOD", "STATE_VOL_WINDOWS",
    "PIP_SIZES", "SCAN_SYMBOLS", "TABLE_RELOAD_SECS"]

/-! ## Groups of settings -/

def readWindow (label : String) : Except Failure Window := do
  match ← Window.ofLabel label with
  | some window => return window
  | none => Setting.refuse (.badWindowLabel label)

def readWindows (raw : String) : Except Failure (List Window) := do
  match ← (Text.items raw).mapM readWindow with
  | [] => Setting.refuse .noWindows
  | windows => return windows

def readGap (raw : String) : Except Failure Int := do
  let minutes ← Setting.one Setting.whole "BURST_GAP_MINUTES" raw
  if minutes < 0 then Setting.refuse .negativeGap else return minutes * minute

def readVolatility (raw : String) : Except Failure (Option (Nat × Nat)) := do
  match ← Setting.pairs Setting.wordCount Setting.wordCount "STATE_VOL_WINDOWS" raw with
  | [] => return none
  | [(short, long)] =>
    if 2 ≤ short ∧ short < long then return some (short, long)
    else Setting.refuse .badVolatilityWindows
  | _ => Setting.refuse .badVolatilityWindows

def readPip (entry : String) : Except Failure (String × Float) :=
  match Text.cut? ':' entry.toList with
  | none => Setting.refuse (.badPipEntry entry)
  | some (symbol, pip) => do
    let symbol := String.ofList symbol
    let pip ← Setting.one Setting.real "PIP_SIZES" (String.ofList pip)
    if pip ≤ 0.0 then Setting.refuse (.pipNotPositive symbol) else return (symbol, pip)

def readAlpha (raw : String) : Except Failure Float := do
  let alpha ← Setting.one Setting.real "LAPLACE_ALPHA" raw
  if alpha > 0.0 then return alpha else Setting.refuse (.notPositive "LAPLACE_ALPHA")

def readBands (overbought oversold : String) : Except Failure Bands := do
  let overbought ← Setting.one Setting.real "OVERBOUGHT" overbought
  let oversold ← Setting.one Setting.real "OVERSOLD" oversold
  if oversold ≥ overbought then Setting.refuse .bandsCrossed else return ⟨overbought, oversold⟩

/-- The text of a currency is taken in capitals. -/
def readCurrencies (raw : String) : List String :=
  (Text.items raw).map fun c => c.map Char.toUpper

/-! ## The configuration as a whole -/

def load (lookup : Lookup) : Except Failure Config := do
  let text (key default : String) : String := (lookup key).getD default
  let positive (key default : String) : Except Failure Nat :=
    Setting.onePositive Setting.wordCount key (text key default)
  let windows ← readWindows (text "WINDOWS" "15m,1h,4h,8h,12h,24h")
  let window := text "OSC_WINDOW" "1h"
  if !windows.any fun w => w.label == window then
    Setting.refuse (.unlistedOscillatorWindow window)
  -- Distances may be fractions of a pip; windows and horizons are whole minutes.
  let triggers ← Setting.pairs Setting.ranked Setting.whole "TRIGGER_GRID"
    (text "TRIGGER_GRID" "10:10,15:10,20:15,30:30")
  let outcomes ← Setting.pairs Setting.real Setting.whole "OUTCOME_GRID"
    (text "OUTCOME_GRID" "10:30,15:60,20:120")
  let burstGap ← readGap (text "BURST_GAP_MINUTES" "1")
  let rsiPeriod ← Setting.one Setting.wordCount "STATE_RSI_PERIOD" (text "STATE_RSI_PERIOD" "14")
  let volatility ← readVolatility (text "STATE_VOL_WINDOWS" "15:120")
  let pips ← (Text.items (text "PIP_SIZES" "")).mapM readPip
  let alpha ← readAlpha (text "LAPLACE_ALPHA" "1.0")
  let bands ← readBands (text "OVERBOUGHT" "70") (text "OVERSOLD" "30")
  let oscillators : OscillatorSettings :=
    { window
      rsiPeriod := ← positive "RSI_PERIOD" "14"
      stochasticK := ← positive "STOCH_K" "14"
      stochasticD := ← positive "STOCH_D" "3"
      zScoreWindow := ← positive "ZSCORE_WINDOW" "20"
      rankWindow := ← positive "PRANK_WINDOW" "50"
      bands
      zScoreBand := ← Setting.one Setting.real "ZSCORE_BAND" (text "ZSCORE_BAND" "2.0") }
  let apiPort ← Setting.one (Setting.count 65535) "API_PORT" (text "API_PORT" "3000")
  let slack ← Setting.one Setting.whole "RETENTION_SLACK_MINUTES" (text "RETENTION_SLACK_MINUTES" "30")
  let refreshInterval ← positive "REFRESH_INTERVAL_MS" "1000"
  let minTotal ← Setting.one Setting.wordCount "N_MIN" (text "N_MIN" "200")
  let tableReload ← positive "TABLE_RELOAD_SECS" "300"
  return {
    logLevel := text "LOG_LEVEL" "info"
    databasePath := text "DB_PATH" "fx_edge.db"
    apiPort
    currencies := readCurrencies (text "CURRENCIES" "EUR,USD,GBP,JPY,CHF,CAD,AUD,NZD")
    windows
    retentionSlack := slack * minute
    refreshInterval
    oscillators
    triggers := triggers.map fun (minPips, minutes) => ⟨minPips, minutes⟩
    outcomes := outcomes.map fun (targetPips, minutes) => ⟨targetPips, minutes⟩
    burstGap
    minTotal
    alpha
    state := ⟨if rsiPeriod = 0 then none else some rsiPeriod, volatility⟩
    pips := PipSizes.ofList pips
    scanSymbols := Text.items (text "SCAN_SYMBOLS" "")
    tableReload }

/-- Nothing but the named settings is looked up. -/
theorem load_congr {f g : Lookup} (h : ∀ name ∈ names, f name = g name) : load f = load g := by
  simp only [names, List.forall_mem_cons] at h
  simp only [load, h]

/-- How far back history is kept: as far as the longest window, the longest trigger and the state
look, and some slack. Lengths of time are signed, so the look-back of the state, a count, is taken as
a signed number: one that does not fit is negative, and asks for no history. -/
def retention (c : Config) : Int :=
  let windows := (c.windows.map (·.length)).foldl max 0
  let triggers := (c.triggers.map Trigger.window).foldl max 0
  let state := wrapSigned c.state.lookback * minute
  max (max windows triggers) state + c.retentionSlack

/-- The settings of a scan. -/
def scan (c : Config) : ScanSettings :=
  { triggers := c.triggers
    outcomes := c.outcomes
    state := c.state
    alpha := c.alpha
    gap := c.burstGap
    relaxed := true }

/-- The settings of live matching. -/
def edge (c : Config) : EdgeSettings :=
  { triggers := Trigger.prioritize c.triggers
    state := c.state
    minTotal := c.minTotal
    pips := c.pips
    gap := c.burstGap }

end Config

end FxPulse
