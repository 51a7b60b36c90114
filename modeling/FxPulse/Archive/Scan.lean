import FxPulse.Archive.Basic
import FxPulse.Config.Basic

/-!
# `Archive/Scan.lean` — from archived bars to archived rows

A run scans the bars of each symbol and puts what it finds in the place of the symbol's rows. Symbols
do not get in each other's way: one that cannot be scanned, or whose rows cannot be kept, keeps the
rows it had and is counted as failed.
-/

set_option autoImplicit false

namespace FxPulse.Archive

/-- The scans to be made: of the symbols that are asked for, or else of all, those that have bars. -/
def jobs (a : Archive) (c : Config) : List Scan.Job :=
  let symbols := if c.scanSymbols.isEmpty then a.symbols else c.scanSymbols
  symbols.filterMap fun symbol =>
    let bars := a.loadBars symbol
    if bars.isEmpty then none else some ⟨symbol, bars.toArray, c.pips.pip symbol⟩

/-- Keeps the rows of a scan, if it was completed. -/
def keep (alpha : Float) (a : Archive) (symbol : String) (scan : Except Failure InstrumentScan) :
    Except Failure Archive := do
  a.replaceRows symbol ((← scan).rows alpha)

/-- A run over the archive, and the number of symbols that failed. -/
def scan (a : Archive) (c : Config) : Archive × Nat :=
  (Scan.runAll c.scan false (a.jobs c)).foldl (fun (archive, failed) (symbol, result) =>
      match keep c.alpha archive symbol result with
      | .ok next => (next, failed)
      | .error _ => (archive, failed + 1))
    (a, 0)

/-- What a run leaves behind: the archive, an exit code, and what kept it from running, if anything
did. -/
structure RunReport where
  archive : Archive
  exitCode : Nat
  complaint : Option String

/-- The complaint as far as it stands on its first line: a setting may hold line ends, and a complaint
quotes it as it is. -/
def RunReport.headline? (r : RunReport) : Option String := r.complaint.map Text.firstLine

/-- A run with the settings that are found. -/
def run (a : Archive) (lookup : Config.Lookup) : Except Fault RunReport :=
  match Config.load lookup with
  | .error (.fault fault) => .error fault
  | .error cause => .ok ⟨a, 1, some ("Config error: " ++ cause.message)⟩
  | .ok config =>
    let (next, failed) := a.scan config
    .ok ⟨next, if failed = 0 then 0 else 2, none⟩

end FxPulse.Archive
