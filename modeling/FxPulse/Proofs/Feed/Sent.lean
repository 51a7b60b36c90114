import FxPulse.Proofs.Feed.Lines
import Mathlib.Data.List.Basic

/-!
# `Proofs/Feed/Sent.lean` — what a feed sends

A feed takes its bodies one after the other, and each is a tick that is sent or counts as malformed. So far as the
receiver takes ticks,

> what has been sent are the ticks of the bodies so far, in their order, and the counts are those of the bodies so
> far (`forward_append`).

A receiver with room for all of them gets the ticks of all bodies (`forward_of_room`). One that takes fewer gets just
as many as it takes, and the next body that spells a tick is the last to be read (`forward_of_no_room`).
-/

set_option autoImplicit false

namespace FxPulse

namespace Feed

/-- How many of some bodies spell no tick. -/
def countMalformed (bodies : List String) : Nat := bodies.countP fun body => (tick? body).isNone

/-- A body spells a tick, or it is malformed. -/
theorem length_ticks_add_countMalformed (bodies : List String) :
    (bodies.filterMap tick?).length + countMalformed bodies = bodies.length := by
  rw [List.length_filterMap_eq_countP, countMalformed,
    List.length_eq_countP_add_countP (fun body => (tick? body).isSome) (l := bodies)]
  congr 1
  refine List.countP_congr fun body _ => ?_
  cases tick? body <;> simp

end Feed

namespace FeedStats

/-- The counts some bodies later, if all their ticks are sent. -/
def after (s : FeedStats) (bodies : List String) : FeedStats :=
  ⟨s.lines + bodies.length, s.forwarded + (bodies.filterMap Feed.tick?).length,
    s.malformed + Feed.countMalformed bodies⟩

theorem after_cons (s : FeedStats) (body : String) (rest : List String) :
    s.after (body :: rest) = (s.after [body]).after rest := by
  have counted : Feed.countMalformed (body :: rest) = Feed.countMalformed [body] + Feed.countMalformed rest := by
    unfold Feed.countMalformed
    rw [← List.countP_append, List.singleton_append]
  have sent : ((body :: rest).filterMap Feed.tick?).length
      = ([body].filterMap Feed.tick?).length + (rest.filterMap Feed.tick?).length := by
    rw [← List.length_append, ← List.filterMap_append, List.singleton_append]
  simp only [after, counted, sent, List.length_cons, List.length_nil]
  congr 1 <;> omega

end FeedStats

namespace Feed

/-- **What stands in front of a line has been sent before it.** -/
theorem forward_append (front : List String) (room : Option Nat) (stats : FeedStats) (behind : List Line) :
    forward (room.map (· + (front.filterMap tick?).length)) stats (front.map Line.ofBody ++ behind)
      = { forward room (stats.after front) behind with
          ticks := front.filterMap tick? ++ (forward room (stats.after front) behind).ticks } := by
  induction front generalizing stats with
  | nil => cases room <;> rfl
  | cons body rest ih =>
    have later := ih (stats.after [body])
    rw [← FeedStats.after_cons] at later
    rw [List.map_cons, List.cons_append, Line.ofBody]
    cases spelled : tick? body with
    | none =>
      have counted : stats.after [body]
          = { stats with lines := stats.lines + 1, malformed := stats.malformed + 1 } := by
        simp [FeedStats.after, countMalformed, spelled]
      rw [counted] at later
      rw [List.filterMap_cons_none spelled]
      exact later
    | some t =>
      have counted : stats.after [body]
          = { stats with lines := stats.lines + 1, forwarded := stats.forwarded + 1 } := by
        simp [FeedStats.after, countMalformed, spelled]
      rw [counted] at later
      rw [List.filterMap_cons_some spelled, forward]
      dsimp only
      have open_still : room.map (· + (t :: rest.filterMap tick?).length) ≠ some 0 := by
        cases room <;> simp
      have one_less : (room.map (· + (t :: rest.filterMap tick?).length)).map (· - 1)
          = room.map (· + (rest.filterMap tick?).length) := by
        cases room <;> simp
      rw [if_neg open_still, one_less, later]
      rfl

section Text

variable (bodies : List String)

theorem forward_of_unlimited (stats : FeedStats) :
    forward none stats (bodies.map Line.ofBody) = ⟨bodies.filterMap tick?, .ok (stats.after bodies)⟩ := by
  have all := forward_append bodies none stats []
  rw [List.append_nil] at all
  exact all.trans (by simp [forward])

/-- A receiver with room for all ticks is as good as one without limit. -/
theorem forward_of_room {m : Nat} (room : (bodies.filterMap tick?).length ≤ m) (stats : FeedStats) :
    forward (some m) stats (bodies.map Line.ofBody) = forward none stats (bodies.map Line.ofBody) := by
  have all := forward_append bodies (some (m - (bodies.filterMap tick?).length)) stats []
  rw [List.append_nil, Option.map_some, Nat.sub_add_cancel room] at all
  rw [forward_of_unlimited]
  exact all.trans (by simp [forward])

/-- **A receiver that takes fewer ticks gets the first of them**, and the reading stops at the next one. -/
theorem forward_of_no_room {m : Nat} (few : m < (bodies.filterMap tick?).length) (stats : FeedStats) :
    ∃ front body behind, bodies = front ++ body :: behind ∧ (tick? body).isSome = true ∧
      front.filterMap tick? = (bodies.filterMap tick?).take m ∧
      forward (some m) stats (bodies.map Line.ofBody)
        = ⟨front.filterMap tick?, .ok { stats.after front with lines := stats.lines + front.length + 1 }⟩ := by
  -- The ticks are cut behind the first `m`; the bodies are cut in front of the one that spells the next tick.
  have cut := (List.take_append_drop m (bodies.filterMap tick?)).symm
  rw [List.drop_eq_getElem_cons few] at cut
  obtain ⟨before, from_next, split, sent, refused⟩ := List.filterMap_eq_append_iff.1 cut
  obtain ⟨between, body, behind, rfl, malformed, spelled, -⟩ := List.filterMap_eq_cons_iff.1 refused
  have front_sent : (before ++ between).filterMap tick? = (bodies.filterMap tick?).take m := by
    rw [List.filterMap_append, List.filterMap_eq_nil_iff.2 malformed, List.append_nil, sent]
  have count : ((before ++ between).filterMap tick?).length = m := by
    rw [front_sent, List.length_take, Nat.min_eq_left (Nat.le_of_lt few)]
  have bodies_eq : bodies = (before ++ between) ++ body :: behind := by rw [split, List.append_assoc]
  refine ⟨before ++ between, body, behind, bodies_eq, by rw [spelled]; rfl, front_sent, ?_⟩
  have stopped := forward_append (before ++ between) (some 0) stats ((body :: behind).map Line.ofBody)
  rw [Option.map_some, count, Nat.zero_add, ← List.map_append] at stopped
  rw [bodies_eq, stopped, List.map_cons, Line.ofBody, spelled]
  simp [forward, FeedStats.after]

end Text

/-- A blank line, one that is no tick, and three ticks. -/
def mixedFeed : String :=
  "\r\n x \n\x7b\"instrument\":\"EURUSD\",\"bid\":1.0,\"ask\":1.5,\"ts_ms\":0\x7d\r\n" ++
    "\x7b\"instrument\":\"EURUSD\",\"bid\":1.5,\"ask\":-1.0,\"ts_ms\":1\x7d\n" ++
    "\x7b\"instrument\":\"EURUSD\",\"bid\":1.5,\"ask\":2.0,\"ts_ms\":2\x7d"

/-- A receiver that takes one tick of it: the second is read, and the third is not. -/
example :
    let run := forward (some 1) ⟨0, 0, 0⟩ ((bodies mixedFeed).map Line.ofBody)
    run.ticks = [⟨"EURUSD", 1.0, 1.5, 0⟩] ∧ run.result.toOption = some ⟨3, 1, 1⟩ := by
  decide +kernel

end Feed

end FxPulse
