import FxPulse.Proofs.Checked.Config
import FxPulse.Proofs.Checked.Engine
import FxPulse.Proofs.Checked.Scans

/-!
# `Proofs/Checked/Calls.lean` — what can break off under an accepted configuration

What has been shown piece by piece is put together for all that is asked of a configured program: to
find the triggers at a bar, to scan an instrument, and to answer any sequence of calls to an engine.

> No element, no stretch, no difference and no divisor in any of them is ever wrong, but one: a scan can
> stumble where the end of a horizon leaves the word and the program goes on (`ends_everywhere`).

Of the configuration four things are used: horizons are positive, the short run of a volatility regime is
shorter than the long one, what a state looks back on can be counted, and rings can be stored. How long
history is kept is not among them, and neither is the length of any window.

Where words hold all that the calls compute, they are answered as they would be with numbers of any size
(`callAll_completes`).
-/

set_option autoImplicit false

namespace FxPulse

open FxPulse.Number

namespace Engine

/-- Words hold all that an engine computes for a call. -/
def FitsFor (e : Engine) : Call → Prop
  | .ingest t => fitsSigned (t.ts - (e.store.seriesOf t.instrument).retention) = true
  | .refresh _ => e.Fits
  | .setTable _ => True
  | .edge instrument =>
    ∀ series, e.store.read? instrument = some series → e.edgeSettings.FitsAt series
  | .percentChange _ => Checked.WindowsFit e.store e.windows
  | .strength => Checked.WindowsFit e.store e.windows

/-- Words hold all that is computed for some calls, one after the other. -/
def FitsAlong (e : Engine) : List Call → Prop
  | [] => True
  | first :: rest =>
    e.FitsFor first ∧ ∀ after answer, e.call first = .ok (after, answer) → after.FitsAlong rest

end Engine

namespace Checked

variable {b : Build}

/-! ## One call -/

section Ready

variable {e : Engine} (ready : Ready e)
include ready

/-- **One call is answered in words as it is otherwise**, where words hold what is computed for it. -/
theorem call_completes {asked : Call} (fits : e.FitsFor asked) (b : Build) :
    Completes (call b e asked) (e.call asked) := by
  cases asked with
  | ingest t =>
    refine .of_eq ?_ rfl
    rw [call, ingest_eq fits]
    rfl
  | refresh watch => exact (refresh_completes b ready fits watch).bind fun _ _ => .of_eq rfl rfl
  | setTable rows => exact .of_eq rfl rfl
  | edge instrument => exact (edge_completes b ready fits).bind fun _ _ => .of_eq rfl rfl
  | percentChange instrument =>
    refine .of_eq ?_ rfl
    rw [call, percentChange_eq fits]
    rfl
  | strength =>
    refine .of_eq ?_ rfl
    rw [call, strength_eq fits]
    rfl

/-- **One call comes to an end.** -/
theorem call_ends (asked : Call) : Ends b (call b e asked) := by
  cases asked with
  | ingest t => exact (ingest_ends e t).bind fun _ _ => .ok _
  | refresh watch => exact (refresh_ends ready watch).bind fun _ _ => .ok _
  | setTable rows => exact .ok _
  | edge instrument => exact (edge_ends ready instrument).bind fun _ _ => .ok _
  | percentChange instrument => exact (percentChange_ends e instrument).bind fun _ _ => .ok _
  | strength => exact (strength_ends e).bind fun _ _ => .ok _

/-- **One call leaves an engine ready.** -/
theorem Ready.call {after : Engine} {asked : Call} {answer : Answer}
    (answered : call b e asked = .ok (after, answer)) : Ready after := by
  cases asked with
  | ingest t =>
    obtain ⟨⟨taken, result⟩, ingested, answered⟩ := bind_eq_ok_iff.1 answered
    cases answered
    exact ready.alike (alike_of_ingest ingested)
  | refresh watch =>
    obtain ⟨⟨refreshed, summary⟩, found, answered⟩ := bind_eq_ok_iff.1 answered
    cases answered
    exact ready.alike (alike_of_refresh found)
  | setTable rows =>
    cases answered
    exact ⟨ready.storable, ready.proper, ready.counted, rows, rfl⟩
  | edge instrument =>
    obtain ⟨found, -, answered⟩ := bind_eq_ok_iff.1 answered
    cases answered
    exact ready
  | percentChange instrument =>
    obtain ⟨found, -, answered⟩ := bind_eq_ok_iff.1 answered
    cases answered
    exact ready
  | strength =>
    obtain ⟨found, -, answered⟩ := bind_eq_ok_iff.1 answered
    cases answered
    exact ready

end Ready

/-! ## Many calls -/

/-- **All calls are answered in words as they are otherwise**, where words hold what is computed. -/
theorem callAll_completes {e : Engine} (ready : Ready e) {calls : List Call}
    (fits : e.FitsAlong calls) (b : Build) : Completes (callAll b e calls) (e.callAll calls) := by
  induction calls generalizing e with
  | nil => exact .of_eq rfl rfl
  | cons first rest ih =>
    obtain ⟨own, others⟩ := fits
    refine (call_completes ready own b).bind fun (after, answer) answered => ?_
    have still := ready.call ((call_completes ready own b).eq_ok answered)
    exact (ih still (others after answer answered)).bind fun _ _ => .of_eq rfl rfl

/-- **All calls come to an end**, one after the other. -/
theorem callAll_ends {e : Engine} (ready : Ready e) (calls : List Call) :
    Ends b (callAll b e calls) := by
  induction calls generalizing e with
  | nil => exact .ok _
  | cons first rest ih =>
    refine (call_ends ready first).bind fun (after, answer) answered => ?_
    exact (ih (ready.call answered)).bind fun _ _ => .ok _

/-! ## A configured program -/

theorem ready_newEngine {c : Config} (storable : Engine.Storable c.oscillators)
    (proper : c.state.Proper) (counted : c.state.Fits) {rows : List Row} {e : Engine}
    (made : newEngine b c (Table.ofRows rows) = .ok e) : Ready e := by
  obtain ⟨retention, -, made⟩ := bind_eq_ok_iff.1 made
  cases made
  exact ⟨storable, proper, counted, rows, rfl⟩

theorem newEngine_ends (c : Config) (table : Table) : Ends b (newEngine b c table) :=
  (retention_ends c).bind fun _ _ => .ok _

/-- What a scan needs of a configuration is accepted in words as it is otherwise. -/
theorem proper_of_load {lookup : Config.Lookup} {c : Config} (loaded : load b lookup = .ok c) :
    c.state.Proper ∧ ∀ o ∈ c.outcomes, 0 ≤ o.minutes := by
  obtain ⟨exact, accepted, worded⟩ := load_eq_ok_iff.1 loaded
  have whole := (Config.load_reads accepted).whole
  rw [(eq_of_inWords worded).1]
  exact ⟨(Config.load_proper accepted : exact.state.Proper), fun o mem =>
    Int.le_of_lt (whole.outcomes o mem)⟩

/-- **What can break off under an accepted configuration**, if what a state looks back on can be counted.
The triggers at a bar, of bars that may be anything, come to an end. So does a scan of any bars, unless the
program goes on where the end of a horizon does not fit, and some end of a horizon does not. And if the rings
of its oscillators can be stored, an engine comes to an end with every sequence of calls, over any rows and
whatever ticks it is given, however short its history. To come to an end is to have an answer or a refusal,
or to notice a number that no word holds, if the program was built to: no element, no stretch, no difference
and no divisor is wrong. -/
theorem ends_everywhere {lookup : Config.Lookup} {c : Config} (loaded : load b lookup = .ok c)
    (counted : c.state.Fits) :
    (∀ (bars : Array Bar) (i : Nat) (pip : Float), i < bars.size →
      Ends b (triggersAt b c.scan bars i pip)) ∧
    (∀ (cancelled : Nat → Bool) (symbol : String) (bars : Array Bar) (pip : Float),
      (b = .wrapping → ∀ bar ∈ bars, ∀ o ∈ c.outcomes, o.Fits bar.closing) →
        Ends b (run b c.scan cancelled symbol bars pip)) ∧
    (Engine.Storable c.oscillators → ∀ (rows : List Row) (calls : List Call),
      Ends b (do callAll b (← newEngine b c (Table.ofRows rows)) calls)) := by
  obtain ⟨proper, forward⟩ := proper_of_load loaded
  refine ⟨?_, ?_, ?_⟩
  · intro bars i pip hi
    exact triggersAt_ends hi pip proper counted
  · intro cancelled symbol bars pip fits
    exact run_ends forward proper cancelled symbol counted fits pip
  · intro storable rows calls
    exact (newEngine_ends c _).bind fun e made =>
      callAll_ends (ready_newEngine storable proper counted made) calls

/-- Two currencies, and history that is kept for no time at all. -/
def noHistory : Config.Lookup
  | "CURRENCIES" => some "EUR,USD"
  | "TRIGGER_GRID" => some "10:1"
  | "OUTCOME_GRID" => some "5:1"
  | "RETENTION_SLACK_MINUTES" => some "-1440"
  | _ => none

/-- Bars that no scan goes over: the first has no price, and the second lies before it. -/
def disordered : Array Bar :=
  #[⟨120000, 0.0, 0.0, 0.0, 0.0⟩, ⟨60000, 1.1, 1.1, 1.1, 1.1⟩, ⟨180000, 1.1, 1.103, 1.1, 1.102⟩]

/-- Two bars of which the second is the last that a word has a time for. -/
def lastBars : Array Bar :=
  #[⟨9223372036854715807, 1.1, 1.1, 1.1, 1.1⟩, ⟨9223372036854775807, 1.1, 1.103, 1.1, 1.102⟩]

def everyCall : List Call :=
  [.ingest ⟨"EURUSD", 1.0, 1.0, 0⟩, .ingest ⟨"EURUSD", 1.5, 1.5, 60000⟩, .ingest ⟨"EURUSD", 1.5, 1.5, 0⟩,
    .refresh ⟨60500, 10⟩, .setTable [], .edge "EURUSD", .percentChange "EURUSD", .strength,
    .refresh ⟨61500, 10⟩]

/-- Under a configuration that keeps no history, in a program that goes on: the triggers among disordered
bars, a scan of three minutes of trading and all calls come to an end. A scan of the last bars that there can
be does not: the end of the horizon comes out in front of them. -/
theorem ends_everywhere_noHistory : ∃ c, load .wrapping noHistory = .ok c ∧ c.state.Fits ∧
    Engine.Storable c.oscillators ∧ retention .wrapping c = .ok 0 ∧ (∀ w ∈ c.windows, 0 < w.length) ∧
    Ends .wrapping (triggersAt .wrapping c.scan disordered 2 0.0001) ∧
    Ends .wrapping (run .wrapping c.scan (fun _ => false) "EURUSD" Scan.jump 0.0001) ∧
    Ends .wrapping (do callAll .wrapping (← newEngine .wrapping c (Table.ofRows [])) everyCall) ∧
    run .wrapping c.scan (fun _ => false) "EURUSD" lastBars 0.0001
      = .error (.breach (.belowZero 0 1)) := by
  have computed : (load .wrapping noHistory).toOption.any (fun c : Config =>
      decide (c.state.Fits ∧
        (∀ k ∈ Engine.kinds c.oscillators, ∀ n ∈ k.1.capacities, n ≤ Ring.greatestCapacity) ∧
        retention .wrapping c = .ok 0 ∧ (∀ w ∈ c.windows, 0 < w.length) ∧
        ∀ bar ∈ Scan.jump, ∀ o ∈ c.outcomes, o.Fits bar.closing) &&
      (match run .wrapping c.scan (fun _ => false) "EURUSD" lastBars 0.0001 with
        | .error halt => decide (halt = .breach (.belowZero 0 1))
        | .ok _ => false)) = true := by
    decide +kernel
  obtain ⟨c, loaded, rest⟩ := exists_ok_of_any computed
  obtain ⟨settings, broken⟩ := Bool.and_eq_true_iff.1 rest
  obtain ⟨counted, storable, kept, long, near⟩ := of_decide_eq_true settings
  obtain ⟨back, scanned, called⟩ := ends_everywhere loaded counted
  refine ⟨c, loaded, counted, storable, kept, long, back disordered 2 0.0001 (by decide),
    scanned _ "EURUSD" Scan.jump 0.0001 fun _ => near, called storable [] everyCall, ?_⟩
  cases ran : run .wrapping c.scan (fun _ => false) "EURUSD" lastBars 0.0001 with
  | ok scan =>
    rw [ran] at broken
    cases broken
  | error halt =>
    rw [ran] at broken
    rw [of_decide_eq_true broken]

end Checked

end FxPulse
