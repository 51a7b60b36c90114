import FxPulse.Api.Request
import FxPulse.Engine.Basic

/-!
# `Api/Response.lean` — answers to requests

Every answer comes from the engine as it is; asking changes nothing.
-/

set_option autoImplicit false

namespace FxPulse

inductive Body where
  | json (document : Json)
  | text (text : String)
  | empty

structure Response where
  status : Nat
  body : Body

namespace Response

def found (document : Json) : Response := ⟨200, .json document⟩

/-- What is not there, and what was asked for wrongly, is told apart from what went wrong. -/
def ofFailure (cause : Failure) : Response :=
  let status := match cause with
    | .notAvailable _ => 404
    | .invalidInput _ _ => 400
    | _ => 500
  ⟨status, .text cause.message⟩

def ofResult : Except Failure Json → Response
  | .ok document => found document
  | .error cause => ofFailure cause

end Response

/-- Rows that are shown if no limit is given. -/
def defaultLimit : Nat := 100

namespace Row

/-- A row with how far it can be trusted. -/
def toDetailedJson (r : Row) : Json :=
  .record (r.members ++ [("wilson_lower", .float r.wilsonLower), ("confidence", r.tier.toJson)])

end Row

namespace Table

/-- The best rows of a symbol that have enough cases. -/
def best (t : Table) (symbol : String) (q : TableQuery) : List Row :=
  (t.ranked.filter fun r => r.symbol == symbol && (q.minTotal.getD 0) ≤ r.counts.total).take
    (q.limit.getD defaultLimit)

/-- A symbol without any row is not available; one whose rows have too few cases has none to show. -/
def query (t : Table) (symbol : String) (q : TableQuery) : Except Failure (List Row) :=
  if (t.forSymbol symbol).isEmpty then .error (.notAvailable (.rows symbol))
  else .ok (t.best symbol q)

end Table

namespace Engine

def healthJson (e : Engine) : Json :=
  .record ([("status", .str "ok"), ("instruments", .nat e.store.instruments.length)]
    ++ e.health.members)

def instrumentsJson (e : Engine) : Json :=
  .array (e.store.instruments.filterMap fun i =>
    (e.store.latest i).toOption.map fun p =>
      .record [("instrument", .str i), ("ts_ms", .int p.ts), ("mid", .float p.value)])

/-- The changes of an instrument, and the windows for which there is none. -/
def percentChangeJson (e : Engine) (instrument : String) : Except Failure Json := do
  let changes ← e.percentChange instrument
  let unavailable := (e.windows.map (·.label)).filter fun label => (changes.get? label).isNone
  return .record [("instrument", .str instrument), ("changes", changes.toJson),
    ("unavailable", .array (unavailable.map .str))]

def edgesJson (e : Engine) : Json :=
  .record (e.publishedEdges.map fun (instrument, found) => (instrument, found.toJson))

def tableJson (e : Engine) (symbol : String) (q : TableQuery) : Except Failure Json := do
  return .array ((← e.table.query symbol q).map Row.toDetailedJson)

/-- The answer to a request. -/
def respond (e : Engine) : Request → Except Fault Response
  | .health => .ok (.found e.healthJson)
  | .instruments => .ok (.found e.instrumentsJson)
  | .percentChange symbol => .ok (.ofResult (e.percentChangeJson symbol))
  | .strength => .ok (.found (Strengths.toJson e.strength))
  | .oscillators => .ok (.found (.array (e.publishedOscillators.map PublishedOscillator.toJson)))
  | .edges => .ok (.found e.edgesJson)
  | .edge symbol => do return .found (← e.edge symbol).toJson
  | .table symbol q => .ok (.ofResult (e.tableJson symbol q))
  | .latency => .ok (.found e.latency.toJson)
  | .unknown => .ok ⟨404, .text ""⟩
  | .malformed => .ok ⟨400, .empty⟩

end Engine

end FxPulse
