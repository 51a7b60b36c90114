import FxPulse.Archive.Scan
import FxPulse.Proofs.Archive.Rows
import FxPulse.Proofs.Config.Checks
import FxPulse.Proofs.Scan.Counts

/-!
# `Proofs/Archive/Isolated.lean` — a failure of one symbol is its own

A run scans all symbols first and writes their rows afterwards, one symbol after the other. What becomes of
a symbol depends on its own bars alone:

> the rows of a symbol are those of the scan of its bars, if it was to be scanned, its bars are valid and
> the rows can be kept; otherwise they are what they were. Bars stay, and every job that comes to nothing is
> counted.

So the whole run is a walk over symbols with one step, `settle`, whose outcome for a symbol is the same
whenever it comes up.
-/

set_option autoImplicit false

namespace FxPulse.Archive

open FxPulse.Number

variable (a : Archive) (c : Config)

/-- The symbols to be scanned. -/
def asked : List String := if c.scanSymbols.isEmpty then a.symbols else c.scanSymbols

/-- The scan of a symbol's own bars. -/
def scanOf (symbol : String) : Except Failure InstrumentScan :=
  Scan.run c.scan (fun _ => false) symbol (a.loadBars symbol).toArray (c.pips.pip symbol)

/-- The rows that a symbol's own bars give it, if they can be scanned and the rows can be kept. -/
def newRows? (symbol : String) : Option (List Row) :=
  match a.scanOf c symbol with
  | .ok scan => if Keepable (scan.rows c.alpha) then some (scan.rows c.alpha) else none
  | .error _ => none

/-! ## The walk over symbols -/

/-- What becomes of an archive and of the number of failures with one more symbol. -/
def settle (state : Archive × Nat) (symbol : String) : Archive × Nat :=
  match a.newRows? c symbol with
  | some rows => (state.1.withRows symbol rows, state.2)
  | none => (state.1, state.2 + 1)

theorem symbols_jobs :
    (a.jobs c).map (·.symbol) = (a.asked c).filter fun symbol => !(a.loadBars symbol).isEmpty := by
  rw [jobs, asked, List.map_filterMap, ← List.filterMap_eq_filter]
  refine List.filterMap_congr fun symbol _ => ?_
  dsimp only
  cases h : (a.loadBars symbol).isEmpty <;> simp [Option.guard, h]

/-- A job is the scan of its symbol's own bars. -/
theorem mem_jobs {job : Scan.Job} (h : job ∈ a.jobs c) :
    job.bars = (a.loadBars job.symbol).toArray ∧ job.pip = c.pips.pip job.symbol := by
  obtain ⟨symbol, -, made⟩ := List.mem_filterMap.1 h
  dsimp only at made
  split at made
  · cases made
  · cases made
    exact ⟨rfl, rfl⟩

/-- **A run is a walk over the symbols that have bars.** -/
theorem scan_eq_foldl :
    a.scan c = ((a.jobs c).map (·.symbol)).foldl (a.settle c) (a, 0) := by
  rw [scan, Scan.runAll, List.foldl_map, List.foldl_map]
  refine List.foldl_ext _ _ _ fun state job mem => ?_
  obtain ⟨bars, pip⟩ := a.mem_jobs c mem
  obtain ⟨archive, failed⟩ := state
  have own : Scan.run c.scan (fun _ => false) job.symbol job.bars job.pip = a.scanOf c job.symbol := by
    rw [bars, pip, scanOf]
  dsimp only
  rw [own, settle, newRows?, if_neg Bool.false_ne_true]
  cases a.scanOf c job.symbol with
  | error cause => rfl
  | ok scan =>
    have kept : keep c.alpha archive job.symbol ((Except.ok scan).mapError Failure.ofJob) = _ :=
      archive.replaceRows_eq job.symbol (scan.rows c.alpha)
    rw [kept]
    dsimp only
    by_cases keepable : Keepable (scan.rows c.alpha)
    · rw [if_pos keepable, if_pos keepable]
    · rw [if_neg keepable, if_neg keepable]

section Walk

variable {a c} {symbols : List String} {state : Archive × Nat} {symbol : String}

theorem bars_foldl_settle : (symbols.foldl (a.settle c) state).1.bars = state.1.bars := by
  induction symbols generalizing state with
  | nil => rfl
  | cons first rest ih =>
    rw [List.foldl_cons, ih, settle]
    cases a.newRows? c first <;> rfl

/-- Each symbol that comes to nothing is counted, as often as it comes up. -/
theorem failed_foldl_settle :
    (symbols.foldl (a.settle c) state).2
      = state.2 + symbols.countP fun symbol => (a.newRows? c symbol).isNone := by
  induction symbols generalizing state with
  | nil => rfl
  | cons first rest ih =>
    rw [List.foldl_cons, ih, settle, List.countP_cons]
    cases a.newRows? c first with
    | none =>
      simp only [Option.isNone_none, if_true]
      omega
    | some rows => rfl

/-- A symbol that does not come up, or comes to nothing, keeps its rows. -/
theorem rowsOf_foldl_settle_of_not (h : symbol ∈ symbols → a.newRows? c symbol = none) :
    (symbols.foldl (a.settle c) state).1.rowsOf symbol = state.1.rowsOf symbol := by
  induction symbols generalizing state with
  | nil => rfl
  | cons first rest ih =>
    rw [List.foldl_cons, ih fun later => h (List.mem_cons_of_mem _ later), settle]
    cases settled : a.newRows? c first with
    | none => rfl
    | some rows =>
      have other : symbol ≠ first := by
        rintro rfl
        rw [h List.mem_cons_self] at settled
        cases settled
      dsimp only
      rw [rowsOf_withRows, if_neg other]

/-- A symbol that comes to something has its own rows in the end, however often it comes up. -/
theorem rowsOf_foldl_settle {rows : List Row} (listed : symbol ∈ symbols)
    (found : a.newRows? c symbol = some rows) :
    (symbols.foldl (a.settle c) state).1.rowsOf symbol
      = rows.map fun r => (StoredRow.ofRow symbol r).kept := by
  induction symbols generalizing state with
  | nil => cases listed
  | cons first rest ih =>
    rw [List.foldl_cons]
    by_cases again : symbol ∈ rest
    · exact ih again
    · obtain rfl : symbol = first := (List.mem_cons.1 listed).resolve_right again
      rw [rowsOf_foldl_settle_of_not fun later => absurd later again, settle, found]
      dsimp only
      rw [rowsOf_withRows, if_pos rfl]

end Walk

/-! ## A run under an accepted configuration -/

/-- A symbol's own bars can be scanned, and the rows can be put in the place of its rows. -/
def Persists (symbol : String) : Prop :=
  ∃ scan, a.scanOf c symbol = .ok scan ∧ ∃ next, a.replaceRows symbol (scan.rows c.alpha) = .ok next

/-- Rows that are refused here are refused everywhere. -/
theorem exists_replaceRows_iff {symbol : String} {rows : List Row} :
    (∃ next, a.replaceRows symbol rows = .ok next) ↔ Keepable rows := by
  rw [replaceRows_eq]
  by_cases keepable : Keepable rows
  · simp [keepable]
  · simp [keepable]

theorem newRows?_of_scanOf {symbol : String} {scan : InstrumentScan}
    (scanned : a.scanOf c symbol = .ok scan)
    (kept : ∃ next, a.replaceRows symbol (scan.rows c.alpha) = .ok next) :
    a.newRows? c symbol = some (scan.rows c.alpha) := by
  rw [newRows?, scanned]
  exact if_pos (a.exists_replaceRows_iff.1 kept)

theorem newRows?_eq_none_iff {symbol : String} :
    a.newRows? c symbol = none ↔ ¬ a.Persists c symbol := by
  constructor
  · rintro nothing ⟨scan, scanned, kept⟩
    rw [a.newRows?_of_scanOf c scanned kept] at nothing
    cases nothing
  · intro fails
    unfold newRows?
    cases scanned : a.scanOf c symbol with
    | error cause => rfl
    | ok scan =>
      exact if_neg fun keepable => fails ⟨scan, scanned, a.exists_replaceRows_iff.2 keepable⟩

instance (symbol : String) : Decidable (a.Persists c symbol) :=
  decidable_of_iff (¬ (a.newRows? c symbol).isNone = true) (by
    rw [Option.isNone_iff_eq_none, newRows?_eq_none_iff, not_not])

/-- Under an accepted configuration, a symbol's bars can be scanned exactly if they are valid. -/
theorem exists_scanOf_iff {lookup : Config.Lookup} {c : Config} (loaded : Config.load lookup = .ok c)
    (symbol : String) :
    (∃ scan, a.scanOf c symbol = .ok scan) ↔
      Scan.validate symbol (a.loadBars symbol).toArray = .ok () := by
  constructor
  · rintro ⟨scan, scanned⟩
    obtain ⟨⟨⟩, valid, -⟩ := bind_eq_ok_iff.1 scanned
    exact valid
  · intro valid
    have forward : ∀ o ∈ c.scan.outcomes, 0 ≤ o.minutes := fun o listed =>
      Int.le_trans (by decide) ((Config.load_reads loaded).whole.outcomes o listed)
    exact ⟨_, Scan.run_eq valid forward (Config.load_proper loaded) (fun _ => rfl) _⟩

/-- Rows of a scan that were written are loaded as they were, if their counts fit in a word. -/
theorem forSymbol_of_rowsOf {kept : Archive} {symbol : String} {scan : InstrumentScan} {alpha : Float}
    (sound : scan.tally.Sound)
    (written : kept.rowsOf symbol = (scan.rows alpha).map fun r => (StoredRow.ofRow symbol r).kept)
    (small : ∀ r ∈ scan.rows alpha, r.counts.total < signedLimit) :
    kept.loadTable.forSymbol symbol = (scan.rows alpha).map (·.readBack symbol) := by
  have own := kept.filterMap_filter_rows fun own => own == symbol
  rw [Table.forSymbol, ← own, ← rowsOf, written, List.filterMap_map, ← List.filterMap_eq_map']
  refine List.filterMap_congr fun r mem => ?_
  obtain ⟨named, ordered⟩ := InstrumentScan.sound_of_mem_rows sound mem
  rw [Function.comp_apply, StoredRow.toRow_kept named ⟨ordered, small r mem⟩]
  rfl

/-- A jump of the euro, and a pound that was worth nothing for a minute. -/
def halfValid : Archive where
  bars := [(⟨0, 2.0, 2.0, 2.0, 2.0⟩ : Bar), ⟨60000, 2.0, 2.0, 0.0, 2.0⟩].foldl (putBar "GBPUSD")
    (Scan.jump.toList.foldl (putBar "EURUSD") ∅)
  rows := [⟨"EURUSD", "M10_W10", "K10_T30", "up", "*", 1, 2, 0.5⟩,
    ⟨"GBPUSD", "M10_W10", "K10_T30", "up", "*", 1, 2, 0.5⟩]

/-- The euro is asked for twice. -/
def halfValidSetup : Config.Lookup
  | "CURRENCIES" => some "EUR,USD"
  | "SCAN_SYMBOLS" => some "EURUSD,GBPUSD,EURUSD"
  | "TRIGGER_GRID" => some "8:1"
  | "OUTCOME_GRID" => some "15:1"
  | "STATE_RSI_PERIOD" => some "0"
  | "STATE_VOL_WINDOWS" => some ""
  | _ => none

end FxPulse.Archive
