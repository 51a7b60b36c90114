import FxPulse.Json.Parser
import FxPulse.Text.Bytes
import FxPulse.Wire.Read

/-!
# `Feed.lean` — ticks, one per line

A feed is a stream of bytes with a tick in JSON on each line. Blank lines are passed over; a line that
is no tick is counted and passed over. Ticks go to a receiver, and when it is gone the feed stops. A
line that is not text ends the feed as an error; the ticks before it have been sent.
-/

set_option autoImplicit false

namespace FxPulse

structure FeedStats where
  /-- Lines that are not blank. -/
  lines : Nat
  forwarded : Nat
  malformed : Nat
deriving DecidableEq, Repr, Inhabited

/-- The ticks that were sent, and how the feed ended. -/
structure FeedRun where
  ticks : List Tick
  result : Except Failure FeedStats

namespace Feed

/-- What a line holds. -/
inductive Line where
  | unreadable
  | blank
  | malformed
  | tick (tick : Tick)

def Line.ofBytes (bytes : List UInt8) : Line :=
  match Text.ofBytes? bytes with
  | none => .unreadable
  | some text =>
    let body := Text.trim text
    if body.isEmpty then .blank
    else
      match (Json.parse? body).bind Tick.ofJson? with
      | some t => .tick t
      | none => .malformed

/-- The lines of a feed. What stands behind the last line feed is a line too; it does no harm where it
is empty, being blank. -/
def lines (bytes : List UInt8) : List Line := (Text.pieces 10 bytes).map Line.ofBytes

/-- Sends the ticks of some lines. `room` is how many the receiver will take, if there is a limit. -/
def forward (room : Option Nat) (stats : FeedStats) : List Line → FeedRun
  | [] => ⟨[], .ok stats⟩
  | .unreadable :: _ => ⟨[], .error .unreadableInput⟩
  | .blank :: rest => forward room stats rest
  | .malformed :: rest =>
    forward room { stats with lines := stats.lines + 1, malformed := stats.malformed + 1 } rest
  | .tick t :: rest =>
    let stats := { stats with lines := stats.lines + 1 }
    if room = some 0 then ⟨[], .ok stats⟩
    else
      let run := forward (room.map (· - 1)) { stats with forwarded := stats.forwarded + 1 } rest
      { run with ticks := t :: run.ticks }

/-- Sends the ticks of a stream of bytes. -/
def forwardBytes (room : Option Nat) (bytes : List UInt8) : FeedRun :=
  forward room ⟨0, 0, 0⟩ (lines bytes)

end Feed

end FxPulse
