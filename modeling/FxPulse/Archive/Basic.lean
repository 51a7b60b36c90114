import FxPulse.Failure
import FxPulse.Market.Quote
import FxPulse.Number.Word
import FxPulse.Table.Basic

/-!
# `Archive/Basic.lean` — bars and rows that are kept

The archive keeps two things: the bars of each symbol, one for each time, and the rows of the table.
Both are written in transactions, which take effect as a whole or not at all. A price must be a
number to be kept, and two rows of one symbol must differ in trigger, outcome, direction or state.

Rows are kept as text and signed integers, and may have been written by others; a row that does not
make sense is left out when the table is loaded.
-/

set_option autoImplicit false

namespace FxPulse

open FxPulse.Number

/-- A row as it is kept. -/
structure StoredRow where
  symbol : String
  trigger : String
  outcome : String
  direction : String
  state : String
  successes : Int
  total : Int
  probability : Float
deriving DecidableEq, Repr

namespace StoredRow

/-- What no two rows may have in common. -/
def identity (r : StoredRow) : List String := [r.symbol, r.trigger, r.outcome, r.direction, r.state]

/-- The row as it is kept under a symbol. Counts that are too great for a signed word come out
negative. -/
def ofRow (symbol : String) (r : Row) : StoredRow where
  symbol := symbol
  trigger := r.key.trigger
  outcome := r.key.outcome
  direction := r.key.direction.text
  state := r.key.state.text
  successes := wrapSigned r.counts.successes
  total := wrapSigned r.counts.total
  probability := r.probability.toFloat

/-- Text that has to be understood. -/
def understand {α : Type} (symbol : String) : Except Malformed α → Except Failure α
  | .ok value => .ok value
  | .error cause => .error (.invalidInput symbol (.malformed cause))

/-- The row that is meant. -/
def toRow (r : StoredRow) : Except Failure Row := do
  let direction ← understand r.symbol (Direction.ofText r.direction)
  let state ← understand r.symbol (StateKey.ofText r.state)
  if r.successes < 0 ∨ r.total < r.successes then
    throw (.invalidInput r.symbol (.badCounts r.successes r.total))
  return ⟨r.symbol, ⟨r.trigger, r.outcome, direction, state⟩,
    ⟨r.successes.toNat, r.total.toNat⟩, .float r.probability⟩

end StoredRow

structure Archive where
  /-- By symbol, then by time. -/
  bars : Std.ExtTreeMap String (Std.ExtTreeMap Int Bar)
  /-- In the order in which they were written. -/
  rows : List StoredRow

namespace Archive

def empty : Archive := ⟨∅, []⟩

instance : EmptyCollection Archive := ⟨empty⟩

/-- A float as it is kept. What is not a number is not kept, and zero has no sign. -/
def stored? (x : Float) : Option Float :=
  if x.isNaN then none else if x == 0.0 then some 0.0 else some x

/-! ## Bars -/

def storedBar? (b : Bar) : Option Bar := do
  return ⟨b.ts, ← stored? b.openPrice, ← stored? b.high, ← stored? b.low, ← stored? b.close⟩

/-- A bar takes the place of an earlier one with its time. -/
def putBar (symbol : String) (bars : Std.ExtTreeMap String (Std.ExtTreeMap Int Bar)) (b : Bar) :
    Std.ExtTreeMap String (Std.ExtTreeMap Int Bar) :=
  bars.insert symbol ((bars.getD symbol ∅).insert b.ts b)

/-- Keeps the bars, all of them or none. -/
def insertBars (a : Archive) (symbol : String) (bars : List Bar) : Except Failure Archive :=
  match bars.mapM storedBar? with
  | some stored => .ok { a with bars := stored.foldl (putBar symbol) a.bars }
  | none => .error .storage

/-- The bars of a symbol, in order of time. -/
def loadBars (a : Archive) (symbol : String) : List Bar := (a.bars.getD symbol ∅).values

/-- The symbols that have bars, in order. -/
def symbols (a : Archive) : List String := a.bars.keys

/-! ## Rows -/

/-- Adds one row. -/
def insertRow (rows : List StoredRow) (r : StoredRow) : Except Failure (List StoredRow) :=
  match stored? r.probability with
  | some probability =>
    if rows.any fun other => other.identity == r.identity then .error .storage
    else .ok (rows ++ [{ r with probability }])
  | none => .error .storage

/-- Adds one row as it is. -/
def insertStored (a : Archive) (r : StoredRow) : Except Failure Archive := do
  return { a with rows := ← insertRow a.rows r }

/-- Puts rows in the place of all rows of a symbol. -/
def replaceRows (a : Archive) (symbol : String) (rows : List Row) : Except Failure Archive := do
  let others := a.rows.filter fun r => r.symbol != symbol
  return { a with rows := ← (rows.map (StoredRow.ofRow symbol)).foldlM insertRow others }

/-- The table, without the rows that make no sense. -/
def loadTable (a : Archive) : Table :=
  Table.ofRows (a.rows.filterMap fun r => r.toRow.toOption)

end Archive

end FxPulse
