import FxPulse.Number.Reader
import FxPulse.Text.Bytes

/-!
# `Api/Request.lean` — what a request asks for

The target of a request is a path of segments, perhaps with a query of names and values. Segments are
compared as they are written; what stands for an instrument is freed of its percent escapes
afterwards, so it may contain a slash.
-/

set_option autoImplicit false

namespace FxPulse

open FxPulse.Number

/-- A request for the table of a symbol: rows with at least so many cases, and at most so many rows. -/
structure TableQuery where
  minTotal : Option Nat
  limit : Option Nat
deriving DecidableEq, Repr

inductive Request where
  | health
  | instruments
  | percentChange (symbol : String)
  | strength
  | oscillators
  | edges
  | edge (symbol : String)
  | table (symbol : String) (query : TableQuery)
  | latency
  /-- A path that leads nowhere. -/
  | unknown
  /-- A path that leads somewhere, with a symbol or a query that cannot be read. -/
  | malformed
deriving DecidableEq, Repr

namespace Request

/-! ## Queries -/

/-- The text of a name or value in a query: a plus sign is a blank. Bytes that are no text stand for
nothing that is asked for. -/
def queryText? (bytes : List UInt8) : Option String :=
  Text.ofBytes? (Text.unescape (bytes.map fun b => if b == 43 then 32 else b))

/-- The names and values of a query. A name without a value has the empty one. -/
def queryPairs (query : List UInt8) : List (Option String × Option String) :=
  ((Text.pieces 38 query).filter fun piece => !piece.isEmpty).map fun piece =>
    match Text.cut? 61 piece with
    | some (name, value) => (queryText? name, queryText? value)
    | none => (queryText? piece, some "")

/-- A count in a query: it may be left out, but not be given twice. -/
def count? (pairs : List (Option String × Option String)) (name : String) : Option (Option Nat) :=
  match pairs.filter fun (given, _) => given == some name with
  | [] => some none
  | [(_, value)] => (value.bind (natural? greatestWord)).map some
  | _ => none

def tableQuery? (query : List UInt8) : Option TableQuery := do
  let pairs := queryPairs query
  return ⟨← count? pairs "min_total", ← count? pairs "limit"⟩

/-! ## Paths -/

def symbol? (segment : List UInt8) : Option String := Text.ofBytes? (Text.unescape segment)

/-- A request that names a symbol. -/
def named (segment : List UInt8) (request : String → Request) : Request :=
  if segment.isEmpty then .unknown
  else
    match symbol? segment with
    | some symbol => request symbol
    | none => .malformed

def ofPath (path query : List UInt8) : Request :=
  match Text.pieces 47 path with
  | [[], first] =>
    match Text.ofBytes? first with
    | some "health" => .health
    | some "instruments" => .instruments
    | some "strength" => .strength
    | some "oscillators" => .oscillators
    | some "edges" => .edges
    | _ => .unknown
  | [[], first, second] =>
    match Text.ofBytes? first with
    | some "percent-change" => named second .percentChange
    | some "edge" => named second .edge
    | some "table" =>
      named second fun symbol =>
        match tableQuery? query with
        | some q => .table symbol q
        | none => .malformed
    | some "stats" => if second == Text.toBytes "latency" then .latency else .unknown
    | _ => .unknown
  | _ => .unknown

/-- A target is a path, perhaps a question mark and a query, perhaps a number sign and more that does
not concern the server. -/
def ofTarget (target : String) : Request :=
  let bytes := Text.toBytes target
  -- 35 is the number sign, 63 the question mark.
  let sent := match Text.cut? 35 bytes with
    | some (sent, _) => sent
    | none => bytes
  match Text.cut? 63 sent with
  | some (path, query) => ofPath path query
  | none => ofPath sent []

end Request

end FxPulse
