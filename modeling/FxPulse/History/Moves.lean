import FxPulse.History.TickStore
import FxPulse.Market.Changes
import FxPulse.Market.Window

/-!
# `History/Moves.lean` — how far a price has moved

For each window the newest price is set against the price one window earlier. Where there is no
earlier price, or it is zero, the window has no percentage.
-/

set_option autoImplicit false

namespace FxPulse

namespace Changes

/-- The move from `reference` to `current` in percent. -/
def percent? (current reference : Point) : Option Float :=
  if reference.ts ≥ current.ts || reference.value == 0.0 then none
  else some ((current.value - reference.value) / reference.value * 100.0)

/-- The change over each window, `reference?` finding the point at or before a time. Of two windows
with one label the later counts. -/
def measure (current : Point) (reference? : Int → Option Point) (windows : List Window) : Changes :=
  windows.foldl (fun changes w =>
      match (reference? (current.ts - w.length)).bind (percent? current) with
      | some percent => changes.insert w.label percent
      | none => changes)
    ∅

/-- The changes up to the last of the points. -/
def ofPoints (points : Array Point) (windows : List Window) : Changes :=
  match points.back? with
  | some current => measure current (Point.atOrBefore? points) windows
  | none => ∅

end Changes

/-- The changes of an instrument, none for one without history. -/
def TickStore.changes (s : TickStore) (windows : List Window) (instrument : String) : Changes :=
  match s.read? instrument with
  | some series => Changes.ofPoints series.points windows
  | none => ∅

end FxPulse
