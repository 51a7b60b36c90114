import FxPulse.Market.Direction
import FxPulse.Market.Quote
import FxPulse.Number.Layout
import FxPulse.Number.Ranked
import FxPulse.Number.Word

/-!
# `Burst/Basic.lean` — sudden moves and what may follow them

A trigger asks whether the price has moved a number of pips within a number of minutes; a burst is
the move that fired it. An outcome asks whether the price then goes a number of pips further within
its horizon.

Minutes and milliseconds are whole numbers of any size here. `Checked/Bursts.lean` has them in words.
-/

set_option autoImplicit false

namespace FxPulse

open FxPulse.Number

/-- What a distance in pips may fall short by. Prices are no exact decimals, and a move of just the
asked distance must not be lost for that. -/
def pipTolerance : Float := 1e-6

/-- A distance in a label: whole numbers without a point, as far as 64 bits reach. -/
def pipText (pips : Float) : String :=
  match Binary.ofFloat pips with
  | .finite negative magnitude =>
    match magnitude.whole? with
    | some n =>
      if negative then toString (-(min n signedLimit : Nat) : Int)
      else toString (min n (signedLimit - 1))
    | none => plainText pips
  | _ => plainText pips

structure Trigger where
  minPips : Ranked
  minutes : Int
deriving DecidableEq, Repr

namespace Trigger

def window (t : Trigger) : Int := t.minutes * minute

def label (t : Trigger) : String :=
  "M" ++ pipText t.minPips.toFloat ++ "_W" ++ toString t.minutes

/-- Whether two samples that far apart still show a move within the window. If they are further
apart, data is missing between them. -/
def spans (t : Trigger) (elapsed gap : Int) : Bool := decide (elapsed ≤ t.window + gap)

/-- The order in which live triggers are tried: short windows first, and of triggers with one window
those that ask for more. -/
def priority (a b : Trigger) : Ordering :=
  (compare a.minutes b.minutes).then (Ranked.order b.minPips a.minPips)

/-- Triggers in order of priority; among equals the given order stands. -/
def prioritize (triggers : List Trigger) : List Trigger :=
  triggers.mergeSort fun a b => (priority a b).isLE

end Trigger

structure Outcome where
  targetPips : Float
  minutes : Int
deriving DecidableEq, Repr

namespace Outcome

def horizon (o : Outcome) : Int := o.minutes * minute

def label (o : Outcome) : String := "K" ++ pipText o.targetPips ++ "_T" ++ toString o.minutes

/-- Whether an excursion in pips reaches the target. -/
def reachedBy (o : Outcome) (excursion : Float) : Bool :=
  excursion + pipTolerance ≥ o.targetPips

end Outcome

/-- A trigger that has fired. -/
structure Burst where
  trigger : Trigger
  direction : Direction
  movePips : Float
deriving DecidableEq, Repr

namespace Burst

/-- The burst from one price to another, if the move is far enough and has a direction. -/
def detect? (current reference pip : Float) (trigger : Trigger) : Option Burst :=
  let move := (current - reference) / pip
  if move.abs + pipTolerance < trigger.minPips.toFloat then none
  else (Direction.ofMove? move).map fun direction => ⟨trigger, direction, move⟩

/-- The burst between two points, provided that no data is missing between them. -/
def between? (current reference : Point) (pip : Float) (gap : Int) (trigger : Trigger) :
    Option Burst :=
  if trigger.spans (current.ts - reference.ts) gap then
    detect? current.value reference.value pip trigger
  else none

end Burst

end FxPulse
