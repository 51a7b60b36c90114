import FxPulse.Checked.Bursts
import FxPulse.Checked.States
import FxPulse.Config.Basic

/-!
# `Checked/Config.lean` — lengths of time in words

The minutes, hours and days of a setting are counts that a word holds, or they are refused. In
milliseconds they may be more than it holds, and no check stands behind that product. How far back
history is kept is computed from such lengths, and once more without a check.

Settings are read in the same order as ever, and a length that does not fit is noticed, if at all, at its
own place in that order.
-/

set_option autoImplicit false

namespace FxPulse.Checked

open FxPulse.Number

variable (b : Build)

/-! ## Windows -/

def windowInWords (w : Window) : Checked Window := do
  return { w with length := ← signed b w.length }

/-- Reads a label. The count is a word by then, and so is the unit. -/
def ofLabel (text : String) : Checked (Option Window) := do
  match ← Window.ofLabel text with
  | some w => return some (← windowInWords b w)
  | none => return none

def readWindow (label : String) : Checked Window := do
  match ← ofLabel b label with
  | some window => return window
  | none => Setting.refuse (.badWindowLabel label)

def readWindows (raw : String) : Checked (List Window) := do
  match ← (Text.items raw).mapM (readWindow b) with
  | [] => Setting.refuse .noWindows
  | windows => return windows

/-! ## The configuration -/

def load (lookup : Config.Lookup) : Checked Config := do
  let text (key default : String) : String := (lookup key).getD default
  let positive (key default : String) : Except Failure Nat :=
    Setting.onePositive Setting.wordCount key (text key default)
  let windows ← readWindows b (text "WINDOWS" "15m,1h,4h,8h,12h,24h")
  let window := text "OSC_WINDOW" "1h"
  if !windows.any fun w => w.label == window then
    Setting.refuse (.unlistedOscillatorWindow window)
  let triggers ← Setting.pairs Setting.ranked Setting.whole "TRIGGER_GRID"
    (text "TRIGGER_GRID" "10:10,15:10,20:15,30:30")
  let outcomes ← Setting.pairs Setting.real Setting.whole "OUTCOME_GRID"
    (text "OUTCOME_GRID" "10:30,15:60,20:120")
  let burstGap ← Config.readGap (text "BURST_GAP_MINUTES" "1")
  let rsiPeriod ← Setting.one Setting.wordCount "STATE_RSI_PERIOD" (text "STATE_RSI_PERIOD" "14")
  let volatility ← Config.readVolatility (text "STATE_VOL_WINDOWS" "15:120")
  let pips : List (String × Float) ← (Text.items (text "PIP_SIZES" "")).mapM
    (m := Except Failure) Config.readPip
  let alpha ← Config.readAlpha (text "LAPLACE_ALPHA" "1.0")
  let bands ← Config.readBands (text "OVERBOUGHT" "70") (text "OVERSOLD" "30")
  let oscillators : OscillatorSettings :=
    { window
      rsiPeriod := ← positive "RSI_PERIOD" "14"
      stochasticK := ← positive "STOCH_K" "14"
      stochasticD := ← positive "STOCH_D" "3"
      zScoreWindow := ← positive "ZSCORE_WINDOW" "20"
      rankWindow := ← positive "PRANK_WINDOW" "50"
      bands
      zScoreBand := ← Setting.one Setting.real "ZSCORE_BAND" (text "ZSCORE_BAND" "2.0") }
  let apiPort ← Setting.one (Setting.count 65535) "API_PORT" (text "API_PORT" "3000")
  let slack ← Setting.one Setting.whole "RETENTION_SLACK_MINUTES" (text "RETENTION_SLACK_MINUTES" "30")
  let retentionSlack ← signed b (slack * minute)
  let refreshInterval ← positive "REFRESH_INTERVAL_MS" "1000"
  -- That the minutes of the gap are not negative was asked above; their product comes only now.
  let burstGap ← signed b burstGap
  let minTotal ← Setting.one Setting.wordCount "N_MIN" (text "N_MIN" "200")
  let tableReload ← positive "TABLE_RELOAD_SECS" "300"
  return {
    logLevel := text "LOG_LEVEL" "info"
    databasePath := text "DB_PATH" "fx_edge.db"
    apiPort
    currencies := Config.readCurrencies (text "CURRENCIES" "EUR,USD,GBP,JPY,CHF,CAD,AUD,NZD")
    windows
    retentionSlack
    refreshInterval
    oscillators
    triggers := triggers.map fun (minPips, minutes) => ⟨minPips, minutes⟩
    outcomes := outcomes.map fun (targetPips, minutes) => ⟨targetPips, minutes⟩
    burstGap
    minTotal
    alpha
    state := ⟨if rsiPeriod = 0 then none else some rsiPeriod, volatility⟩
    pips := PipSizes.ofList pips
    scanSymbols := Text.items (text "SCAN_SYMBOLS" "")
    tableReload }

/-- How far back history is kept: as far as the longest window, the longest trigger and the state look,
and some slack. -/
def retention (c : Config) : Checked Int := do
  let windows := (c.windows.map (·.length)).max?.getD 0
  let triggers := (← c.triggers.mapM (window b)).max?.getD 0
  let state ← signed b (wrapSigned (← lookback b c.state) * minute)
  signed b (max (max windows triggers) state + c.retentionSlack)

end FxPulse.Checked
