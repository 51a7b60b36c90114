import FxPulse.Archive.Basic
import FxPulse.Json.Decode
import FxPulse.Json.Parser
import FxPulse.Json.Printer
import FxPulse.Text.Bytes

/-!
# `Archive/Lines.lean` — an archive as text

One entry on each line, a JSON array: a bar with its symbol, or a row as it is kept. Floats are read
as the nearest ones to what is written, so that what has been written out comes back as it was.
-/

set_option autoImplicit false

namespace FxPulse

inductive Entry where
  | bar (symbol : String) (bar : Bar)
  | row (row : StoredRow)
deriving DecidableEq, Repr

namespace Entry

def toJson : Entry → Json
  | .bar symbol b =>
    .array (.str "bar" :: .str symbol :: .int b.ts :: b.prices.map .float)
  | .row r =>
    .array [.str "row", .str r.symbol, .str r.trigger, .str r.outcome, .str r.direction,
      .str r.state, .int r.successes, .int r.total, .float r.probability]

/-- A finite float, correctly rounded. -/
def float? : Json → Option Float
  | .number n => some n.nearest |>.filter Float.isFinite
  | _ => none

def ofJson? (j : Json) : Option Entry := do
  match ← j.list? some with
  | [.text (some "bar"), symbol, ts, first, high, low, close] =>
    return .bar (← symbol.text?)
      ⟨← ts.int?, ← float? first, ← float? high, ← float? low, ← float? close⟩
  | [.text (some "row"), symbol, trigger, outcome, direction, state, successes, total, probability] =>
    return .row ⟨← symbol.text?, ← trigger.text?, ← outcome.text?, ← direction.text?, ← state.text?,
      ← successes.int?, ← total.int?, ← float? probability⟩
  | _ => none

end Entry

namespace Archive

def put (a : Archive) : Entry → Except Failure Archive
  | .bar symbol bar => a.insertBars symbol [bar]
  | .row row => a.insertStored row

/-- Everything in an archive: its bars, then its rows. -/
def entries (a : Archive) : List Entry :=
  (a.bars.toList.flatMap fun (symbol, bars) => bars.values.map (.bar symbol)) ++ a.rows.map .row

def text (a : Archive) : String :=
  String.join (a.entries.map fun e => e.toJson.render ++ "\n")

/-- The entry on a line; a blank line has none. -/
def readLine (line : List UInt8) : Except Failure (Option Entry) :=
  match Text.ofBytes? line with
  | none => .error .unreadableInput
  | some text =>
    if (Text.trim text).isEmpty then .ok none
    else
      match (Json.parse? text).bind Entry.ofJson? with
      | some entry => .ok (some entry)
      | none => .error .malformedJson

/-- The archive that a text spells. -/
def ofBytes (bytes : List UInt8) : Except Failure Archive := do
  let entries ← (Text.pieces 10 bytes).mapM readLine
  (entries.filterMap id).foldlM put ∅

end Archive

end FxPulse
