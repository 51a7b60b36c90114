import FxPulse.Proofs.Archive.Rows

/-!
# `Proofs/Archive/Replaced.lean` — all rows of a symbol, or none

The rows of a symbol are replaced in a transaction: they are deleted, the new ones are inserted one by one,
and the whole is committed. Any insertion can be refused. What the store of rows does is taken as it is
documented: an identity is kept once, a value that is undefined is not kept, and of a transaction that is
dropped nothing is left. On that,

> whoever looks sees the rows as they were or as they are to be; a replacement that succeeds leaves exactly
> the given rows under the symbol and all others as they were, and one that fails leaves everything
> (`replaced_wholesale`).

`run_replacement` says that the statements one by one come to what `replaceRows` says at once.
-/

set_option autoImplicit false

namespace FxPulse.Archive

open FxPulse.Number

/-! ## A transaction, statement by statement -/

inductive Statement where
  | delete (symbol : String)
  | insert (r : StoredRow)
  | commit

/-- A transaction under way: what everybody sees, and the rows as its statements have left them. -/
structure Transaction where
  seen : Archive
  rows : List StoredRow

def start (a : Archive) : Transaction := ⟨a, a.rows⟩

/-- What everybody saw before each statement and at the end, the archive that is left, and what the caller
is told. -/
structure Ending where
  views : List Archive
  archive : Archive
  result : Except Failure Unit

namespace Transaction

def execute (t : Transaction) : Statement → Except Failure Transaction
  | .delete symbol => .ok { t with rows := t.rows.filter fun r => r.symbol != symbol }
  | .insert r => do return { t with rows := ← insertRow t.rows r }
  | .commit => .ok { t with seen := { t.seen with rows := t.rows } }

/-- A transaction ends with its last statement, or is dropped with the first that is refused. -/
def run (t : Transaction) : List Statement → Ending
  | [] => ⟨[t.seen], t.seen, .ok ()⟩
  | statement :: rest =>
    match t.execute statement with
    | .ok next =>
      let ending := next.run rest
      { ending with views := t.seen :: ending.views }
    | .error cause => ⟨[t.seen], t.seen, .error cause⟩

theorem execute_insert (t : Transaction) (r : StoredRow) :
    t.execute (.insert r) = (insertRow t.rows r).map fun rows => { t with rows } := by
  rw [execute]
  cases insertRow t.rows r <;> rfl

/-- Insertions that all succeed are seen by nobody. -/
theorem run_inserts {t : Transaction} {added rows : List StoredRow} (rest : List Statement)
    (h : added.foldlM insertRow t.rows = .ok rows) :
    (t.run (added.map .insert ++ rest)).archive = (run { t with rows } rest).archive ∧
      (t.run (added.map .insert ++ rest)).result = (run { t with rows } rest).result ∧
      ∀ v ∈ (t.run (added.map .insert ++ rest)).views, v = t.seen ∨ v ∈ (run { t with rows } rest).views := by
  induction added generalizing t with
  | nil =>
    cases h
    exact ⟨rfl, rfl, fun v mem => .inr mem⟩
  | cons r more ih =>
    obtain ⟨next, inserted, h⟩ := foldlM_cons_eq_ok_iff.1 h
    obtain ⟨archive, result, views⟩ := ih (t := { t with rows := next }) h
    rw [List.map_cons, List.cons_append, run, execute_insert, inserted]
    refine ⟨archive, result, fun v mem => ?_⟩
    rcases List.mem_cons.1 mem with before | later
    · exact .inl before
    · exact views v later

/-- Nor is one that is refused, or what came before it. -/
theorem run_inserts_refused {t : Transaction} {added : List StoredRow} {cause : Failure}
    (rest : List Statement) (h : added.foldlM insertRow t.rows = .error cause) :
    (t.run (added.map .insert ++ rest)).archive = t.seen ∧
      (t.run (added.map .insert ++ rest)).result = .error cause ∧
      ∀ v ∈ (t.run (added.map .insert ++ rest)).views, v = t.seen := by
  induction added generalizing t with
  | nil => cases h
  | cons r more ih =>
    rw [List.map_cons, List.cons_append, run, execute_insert]
    rw [List.foldlM_cons] at h
    cases inserted : insertRow t.rows r with
    | error first =>
      rw [inserted] at h
      cases h
      exact ⟨rfl, rfl, fun v mem => List.mem_singleton.1 mem⟩
    | ok next =>
      rw [inserted] at h
      obtain ⟨archive, result, views⟩ := ih (t := { t with rows := next }) h
      refine ⟨archive, result, fun v mem => ?_⟩
      rcases List.mem_cons.1 mem with before | later
      · exact before
      · exact views v later

end Transaction

/-! ## A replacement -/

def replacement (symbol : String) (rows : List Row) : List Statement :=
  .delete symbol :: ((rows.map (StoredRow.ofRow symbol)).map .insert ++ [.commit])

/-- Puts rows in the place of all rows of a symbol, statement by statement. -/
def replace (a : Archive) (symbol : String) (rows : List Row) : Ending :=
  a.start.run (replacement symbol rows)

/-- **A replacement is one step** to everybody else: it leaves the archive as it was or as it is to be, and
nothing else is ever seen. -/
theorem run_replacement (a : Archive) (symbol : String) (rows : List Row) :
    (∀ v ∈ (a.replace symbol rows).views, v = a ∨ v = (a.replace symbol rows).archive) ∧
      ((∃ next, a.replaceRows symbol rows = .ok next ∧ (a.replace symbol rows).archive = next ∧
          (a.replace symbol rows).result = .ok ()) ∨
        ∃ cause, a.replaceRows symbol rows = .error cause ∧ (a.replace symbol rows).archive = a ∧
          (a.replace symbol rows).result = .error cause) := by
  -- Nobody sees the deletion either.
  have deleted : a.replace symbol rows
      = { Transaction.run ⟨a, a.rowsBeside symbol⟩
          ((rows.map (StoredRow.ofRow symbol)).map .insert ++ [.commit]) with
        views := a :: (Transaction.run ⟨a, a.rowsBeside symbol⟩
          ((rows.map (StoredRow.ofRow symbol)).map .insert ++ [.commit])).views } := rfl
  rw [deleted]
  cases added : (rows.map (StoredRow.ofRow symbol)).foldlM insertRow (a.rowsBeside symbol) with
  | ok written =>
    obtain ⟨archive, result, views⟩ :=
      Transaction.run_inserts (t := ⟨a, a.rowsBeside symbol⟩) [.commit] added
    have replaced : a.replaceRows symbol rows = .ok { a with rows := written } := by
      rw [rowsBeside] at added
      rw [replaceRows, added]
      rfl
    refine ⟨fun v mem => ?_, .inl ⟨_, replaced, archive, result⟩⟩
    dsimp only at mem ⊢
    rw [archive]
    rcases List.mem_cons.1 mem with before | during
    · exact .inl before
    · rcases views v during with before | committed
      · exact .inl before
      · simpa [Transaction.run, Transaction.execute] using committed
  | error cause =>
    obtain ⟨archive, result, views⟩ :=
      Transaction.run_inserts_refused (t := ⟨a, a.rowsBeside symbol⟩) [.commit] added
    have refused : a.replaceRows symbol rows = .error cause := by
      rw [rowsBeside] at added
      rw [replaceRows, added]
      rfl
    refine ⟨fun v mem => .inl ?_, .inr ⟨cause, refused, archive, result⟩⟩
    rcases List.mem_cons.1 mem with before | during
    · exact before
    · exact views v during

/-- A replacement succeeds exactly if the rows can be kept. -/
theorem replace_eq (a : Archive) (symbol : String) (rows : List Row) :
    (Keepable rows → (a.replace symbol rows).archive = a.withRows symbol rows ∧
        (a.replace symbol rows).result = .ok ()) ∧
      (¬ Keepable rows → (a.replace symbol rows).archive = a ∧
        (a.replace symbol rows).result = .error .storage) := by
  obtain ⟨-, outcome⟩ := a.run_replacement symbol rows
  rw [replaceRows_eq] at outcome
  constructor
  · intro keepable
    rw [if_pos keepable] at outcome
    rcases outcome with ⟨next, written, archive, result⟩ | ⟨cause, refused, -⟩
    · exact ⟨archive.trans (Except.ok.inj written).symm, result⟩
    · cases refused
  · intro refused
    rw [if_neg refused] at outcome
    rcases outcome with ⟨next, written, -⟩ | ⟨cause, same, archive, result⟩
    · cases written
    · cases same
      exact ⟨archive, result⟩

/-- **The rows of a symbol are replaced as a whole.** At no time is anything seen but the archive as it was
and as it is left. A replacement that succeeds leaves the bars and the rows of all other symbols, and under
its symbol the given rows, each as it was given if its state is well formed: zero may have lost its sign,
which makes it no other number. One that fails leaves the archive as it was. It succeeds for well-formed
keys that differ, with probabilities that are numbers, and so for the rows of any scan whose probabilities
are finite. -/
theorem replaced_wholesale (a : Archive) (symbol : String) (rows : List Row)
    (fit : ∀ r ∈ rows, r.counts.Fit) :
    (∀ v ∈ (a.replace symbol rows).views, v = a ∨ v = (a.replace symbol rows).archive) ∧
    ((a.replace symbol rows).result = .ok () →
      a.replaceRows symbol rows = .ok (a.replace symbol rows).archive ∧
      (a.replace symbol rows).archive.bars = a.bars ∧
      (∃ read : Row → Option Row,
        (∀ r ∈ rows, r.key.state.WellFormed → read r = some (r.readBack symbol)) ∧
        (a.replace symbol rows).archive.loadTable.rows.toList
          = a.loadTable.rows.toList.filter (fun r => r.symbol != symbol) ++ rows.filterMap read) ∧
      ((∀ r ∈ rows, r.key.state.WellFormed) →
        (a.replace symbol rows).archive.loadTable.rows.toList
          = a.loadTable.rows.toList.filter (fun r => r.symbol != symbol)
            ++ rows.map (·.readBack symbol)) ∧
      ∀ r ∈ rows, ((r.readBack symbol).probability.toFloat == r.probability.toFloat) = true) ∧
    (∀ cause, (a.replace symbol rows).result = .error cause →
      a.replaceRows symbol rows = .error cause ∧ (a.replace symbol rows).archive = a) ∧
    ((rows.map (·.key)).Nodup → (∀ r ∈ rows, r.key.state.WellFormed) →
      (∀ r ∈ rows, r.probability.toFloat.isNaN = false) → (a.replace symbol rows).result = .ok ()) ∧
    ∀ s cancelled name bars pip scan alpha, Scan.run s cancelled name bars pip = .ok scan →
      (∀ r ∈ scan.rows alpha, r.probability.toFloat.isFinite = true) →
        (a.replace symbol (scan.rows alpha)).result = .ok () ∧
          ∀ r ∈ scan.rows alpha, r.key.state.WellFormed ∧ r.counts.successes ≤ r.counts.total := by
  have read : ∀ r ∈ rows, r.key.state.WellFormed →
      (StoredRow.ofRow symbol r).kept.toRow.toOption = some (r.readBack symbol) := by
    intro r mem named
    rw [StoredRow.toRow_kept named (fit r mem)]
    rfl
  obtain ⟨success, refusal⟩ := a.replace_eq symbol rows
  refine ⟨(a.run_replacement symbol rows).1, ?_, ?_, ?_, ?_⟩
  · intro told
    have keepable : Keepable rows := by
      by_contra refused
      rw [(refusal refused).2] at told
      cases told
    rw [(success keepable).1, replaceRows_eq, if_pos keepable]
    refine ⟨rfl, rfl, ⟨_, read, a.toList_loadTable_withRows symbol rows⟩, fun named => ?_, ?_⟩
    · rw [toList_loadTable_withRows]
      congr 1
      rw [← List.filterMap_eq_map']
      exact List.filterMap_congr fun r mem => read r mem (named r mem)
    · exact fun r mem => unsigned_beq (keepable.defined r mem)
  · intro cause told
    by_cases keepable : Keepable rows
    · rw [(success keepable).2] at told
      cases told
    · obtain ⟨archive, result⟩ := refusal keepable
      rw [result] at told
      cases told
      rw [replaceRows_eq, if_neg keepable]
      exact ⟨rfl, archive⟩
  · intro once named defined
    exact (success (keepable_of_nodup_keys once named defined)).2
  · intro s cancelled name bars pip scan alpha scanned finite
    have sound : ∀ r ∈ scan.rows alpha,
        r.key.state.WellFormed ∧ r.counts.successes ≤ r.counts.total := fun _ mem =>
      InstrumentScan.sound_of_mem_rows (Scan.run_sound scanned) mem
    have keepable : Keepable (scan.rows alpha) :=
      keepable_of_nodup_keys (scan.nodup_keys_rows alpha) (fun r mem => (sound r mem).1)
        fun r mem => isNaN_of_isFinite (finite r mem)
    exact ⟨((a.replace_eq symbol (scan.rows alpha)).1 keepable).2, sound⟩

/-- Two symbols, and one row that is not understood. -/
def twoSymbols : Archive :=
  ⟨∅, [⟨"EURUSD", "M10_W10", "K10_T30", "up", "*", 1, 2, 0.5⟩,
    ⟨"GBPUSD", "M10_W10", "K10_T30", "up", "*", 1, 2, 0.5⟩,
    ⟨"GBPUSD", "M10_W10", "K15_T60", "sideways", "*", 1, 2, 0.5⟩]⟩

def agitated : StateKey := ⟨[⟨"rsi", "7"⟩, ⟨"vol", "high"⟩]⟩

def newRows : List Row :=
  [⟨"EURUSD", ⟨"M10_W10", "K15_T60", .up, agitated⟩, ⟨120, 300⟩, .float 0.4⟩,
    ⟨"EURUSD", ⟨"M10_W10", "K15_T60", .down, ∅⟩, ⟨0, 300⟩, .float (-0.0)⟩]

/-- Both rows are read back, one of them with a zero that has lost its sign. -/
theorem replaced_wholesale_two : (∀ r ∈ newRows, r.counts.Fit) ∧
    (twoSymbols.replace "EURUSD" newRows).result = .ok () ∧
    (twoSymbols.replace "EURUSD" newRows).archive.loadTable.rows.toList
      = [⟨"GBPUSD", ⟨"M10_W10", "K10_T30", .up, ∅⟩, ⟨1, 2⟩, .float 0.5⟩,
        ⟨"EURUSD", ⟨"M10_W10", "K15_T60", .up, agitated⟩, ⟨120, 300⟩, .float 0.4⟩,
        ⟨"EURUSD", ⟨"M10_W10", "K15_T60", .down, ∅⟩, ⟨0, 300⟩, .float 0.0⟩] := by
  have fit : ∀ r ∈ newRows, r.counts.Fit := by decide
  have named : ∀ r ∈ newRows, r.key.state.WellFormed := by decide +kernel
  obtain ⟨-, success, -, told, -⟩ := replaced_wholesale twoSymbols "EURUSD" newRows fit
  have succeeded : (twoSymbols.replace "EURUSD" newRows).result = .ok () :=
    told (by decide +kernel) named (by decide +kernel)
  obtain ⟨-, -, -, loaded, -⟩ := success succeeded
  refine ⟨fit, succeeded, (loaded named).trans ?_⟩
  decide +kernel

end FxPulse.Archive
