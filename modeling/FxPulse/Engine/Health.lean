import FxPulse.Json.Basic

/-!
# `Engine/Health.lean` — signs of life

Counters of what has come in, and the times of the last tick and the last refresh. A time of zero
means that there has been none.
-/

set_option autoImplicit false

namespace FxPulse

structure Health where
  accepted : Nat
  rejected : Nat
  lastTick : Int
  lastRefresh : Int
  tableRows : Nat
deriving DecidableEq, Repr

namespace Health

def new : Health := ⟨0, 0, 0, 0, 0⟩

/-- The last tick is the latest in time, not in order of arrival. -/
def accept (h : Health) (ts : Int) : Health :=
  { h with accepted := h.accepted + 1, lastTick := max h.lastTick ts }

def reject (h : Health) : Health := { h with rejected := h.rejected + 1 }

def refreshedAt (h : Health) (ts : Int) : Health := { h with lastRefresh := ts }

def withTable (h : Health) (rows : Nat) : Health := { h with tableRows := rows }

/-- A time, unless there has been none. -/
def time? (ts : Int) : Option Int := if ts = 0 then none else some ts

def members (h : Health) : List (String × Json) :=
  [("ticks_accepted", .nat h.accepted), ("ticks_rejected", .nat h.rejected),
    ("last_tick_ts_ms", .optional .int (time? h.lastTick)),
    ("last_refresh_at_ms", .optional .int (time? h.lastRefresh)),
    ("table_rows", .nat h.tableRows)]

def toJson (h : Health) : Json := .record h.members

end Health

end FxPulse
