import FxPulse.Burst.Basic
import FxPulse.Checked.Basic

/-!
# `Checked/Bursts.lean` — how far a trigger looks back, and an outcome ahead

Minutes are turned into milliseconds, and times are added up and told apart, in words. A window or a
horizon that is too long for that is still a setting like any other.
-/

set_option autoImplicit false

namespace FxPulse.Checked

open FxPulse.Number

variable (b : Build)

def window (t : Trigger) : Checked Int := signed b t.window

def horizon (o : Outcome) : Checked Int := signed b o.horizon

/-- Whether two samples that far apart still show a move within the window. -/
def spans (t : Trigger) (elapsed gap : Int) : Checked Bool := do
  return decide (elapsed ≤ (← signed b ((← window b t) + gap)))

/-- The time before which the reference of a trigger is looked for. -/
def target (t : Trigger) (now : Int) : Checked Int := do signed b (now - (← window b t))

/-- The burst between two points, provided that no data is missing between them. -/
def between (current reference : Point) (pip : Float) (gap : Int) (t : Trigger) :
    Checked (Option Burst) := do
  if ← spans b t (← signed b (current.ts - reference.ts)) gap then
    return Burst.detect? current.value reference.value pip t
  else return none

end FxPulse.Checked
