import FxPulse.Engine.Basic
import FxPulse.Proofs.Feed.Sent
import FxPulse.Proofs.History.Answers
import Mathlib.Logic.Relation

/-!
# `Proofs/Feed/Relay.lean` — from the lines of a feed into the store

A feed is read by one party and its ticks are taken in by another. What has been sent and not been taken in waits in a
queue with a limited number of places: the reader waits where none is free, and the receiver where none is filled. The
receiver can go away at any time, and then the next tick cannot be sent.

A `Relay` is the state of both parties and the queue between them, and a `Step` is what one of the two does next. Which
one it is, is left open: what is proved holds for every order of steps.

> Whatever has been taken in has been taken in as by `ingestAll`, and once the reader has ended, what has been sent and
> how it ended are what `forward` gives for some room, without limit if the receiver is still there
> (`Account.of_run`). There is something to do until the reader has ended and a receiver that is there has taken in
> what waits, and it comes to that, for there is less to do after each step.

With that, no tick of a text is lost and none is doubled (`feed_accounts`).
-/

set_option autoImplicit false

namespace FxPulse

/-! ## Taking in -/

namespace Health

/-- The counters after some answers of a store. -/
def told (h : Health) (answers : List (Except Failure Point)) : Health :=
  answers.foldl (fun h answer =>
    match answer with
    | .ok point => h.accept point.ts
    | .error _ => h.reject) h

theorem accepted_told (h : Health) (answers : List (Except Failure Point)) :
    (h.told answers).accepted = h.accepted + answers.countP Except.isOk := by
  induction answers generalizing h with
  | nil => rfl
  | cons answer rest ih =>
    rw [told, List.foldl_cons]
    refine (ih _).trans ?_
    cases answer with
    | ok point =>
      rw [List.countP_cons_of_pos rfl]
      show h.accepted + 1 + _ = _
      omega
    | error cause =>
      rw [List.countP_cons_of_neg Bool.false_ne_true]
      rfl

theorem accepted_add_rejected_told (h : Health) (answers : List (Except Failure Point)) :
    (h.told answers).accepted + (h.told answers).rejected = h.accepted + h.rejected + answers.length := by
  induction answers generalizing h with
  | nil => rfl
  | cons answer rest ih =>
    rw [told, List.foldl_cons, List.length_cons]
    refine (ih _).trans ?_
    cases answer with
    | ok point =>
      show h.accepted + 1 + h.rejected + _ = _
      omega
    | error cause =>
      show h.accepted + (h.rejected + 1) + _ = _
      omega

end Health

namespace Engine

/-- **Ticks that are taken in** leave what they leave in the store, and are counted; all else is as it was. -/
theorem ingestAll_eq (e : Engine) (ticks : List Tick) :
    e.ingestAll ticks
      = { e with store := e.store.addAll ticks, health := e.health.told (e.store.answers ticks) } := by
  induction ticks generalizing e with
  | nil => rfl
  | cons t rest ih =>
    have one : (e.ingest t).1
        = { e with store := e.store.after t, health := e.health.told [e.store.answer t] } := by
      unfold ingest TickStore.after TickStore.answer
      cases e.store.add t with
      | ok added => rfl
      | error cause => rfl
    refine (ih (e.ingest t).1).trans ?_
    rw [one]
    rfl

theorem ingestAll_concat (e : Engine) (ticks : List Tick) (t : Tick) :
    e.ingestAll (ticks ++ [t]) = ((e.ingestAll ticks).ingest t).1 := List.foldl_concat ..

end Engine

/-! ## Steps -/

/-- The state of a feed between its reader and its receiver. -/
structure Relay where
  /-- What the reader has not come to. -/
  unread : List Feed.Line
  stats : FeedStats
  /-- How the reading has ended, if it has. -/
  ended : Option (Except Failure FeedStats)
  /-- What has been sent and not been taken in. -/
  queue : List Tick
  /-- What has been taken in. -/
  taken : List Tick
  engine : Engine
  /-- Whether the receiver is there. -/
  listening : Bool

namespace Relay

open Feed

def start (e : Engine) (bytes : List UInt8) : Relay := ⟨lines bytes, ⟨0, 0, 0⟩, none, [], [], e, true⟩

/-- What can happen next, with so many places in the queue. -/
inductive Step (capacity : Nat) : Relay → Relay → Prop where
  /-- The reader passes over a blank line. -/
  | blank {r : Relay} {rest : List Line} (reading : r.ended = none) (next : r.unread = .blank :: rest) :
      Step capacity r { r with unread := rest }
  /-- The reader counts a line that is no tick. -/
  | malformed {r : Relay} {rest : List Line} (reading : r.ended = none) (next : r.unread = .malformed :: rest) :
      Step capacity r { r with
        unread := rest
        stats := { r.stats with lines := r.stats.lines + 1, malformed := r.stats.malformed + 1 } }
  /-- The reader sends a tick, for which there is a place. -/
  | send {r : Relay} {t : Tick} {rest : List Line} (reading : r.ended = none) (next : r.unread = .tick t :: rest)
      (there : r.listening = true) (place : r.queue.length < capacity) :
      Step capacity r { r with
        unread := rest
        stats := { r.stats with lines := r.stats.lines + 1, forwarded := r.stats.forwarded + 1 }
        queue := r.queue ++ [t] }
  /-- The reader has a tick and there is no one to send it to. -/
  | refused {r : Relay} {t : Tick} {rest : List Line} (reading : r.ended = none)
      (next : r.unread = .tick t :: rest) (gone : r.listening = false) :
      Step capacity r { r with ended := some (.ok { r.stats with lines := r.stats.lines + 1 }) }
  /-- The reader comes to what is no text. -/
  | broken {r : Relay} {rest : List Line} (reading : r.ended = none) (next : r.unread = .unreadable :: rest) :
      Step capacity r { r with ended := some (.error .unreadableInput) }
  /-- The reader comes to the end. -/
  | finish {r : Relay} (reading : r.ended = none) (next : r.unread = []) :
      Step capacity r { r with ended := some (.ok r.stats) }
  /-- The receiver takes in the first tick of the queue. -/
  | take {r : Relay} {t : Tick} {rest : List Tick} (there : r.listening = true) (next : r.queue = t :: rest) :
      Step capacity r { r with
        queue := rest, taken := r.taken ++ [t], engine := (r.engine.ingest t).1 }
  /-- The receiver goes away. -/
  | leave {r : Relay} (there : r.listening = true) : Step capacity r { r with listening := false }

/-- All that has been sent, taken in or not. -/
def sent (r : Relay) : List Tick := r.taken ++ r.queue

/-- How many steps there can be at most: two for each line and one for each tick that waits, one to end the reading
and one to go away. -/
def work (r : Relay) : Nat :=
  2 * r.unread.length + r.queue.length + (if r.ended.isNone then 1 else 0) + (if r.listening then 1 else 0)

variable {capacity : Nat} {e : Engine} {bytes : List UInt8} {r next : Relay}

/-- Nothing goes on for ever. -/
theorem Step.work_lt (step : Step capacity r next) : next.work < r.work := by
  cases step <;> simp_all [work]
  all_goals omega

/-- Until all is read and a receiver that is there has taken in what waits, something can happen without its going
away. -/
theorem exists_step (some_place : 0 < capacity)
    (left : r.ended = none ∨ r.listening = true ∧ r.queue ≠ []) :
    ∃ next, Step capacity r next ∧ next.listening = r.listening := by
  by_cases waiting : r.listening = true ∧ r.queue ≠ []
  · obtain ⟨t, rest, next⟩ := List.exists_cons_of_ne_nil waiting.2
    exact ⟨_, .take waiting.1 next, rfl⟩
  · have reading : r.ended = none := left.resolve_right waiting
    cases unread : r.unread with
    | nil => exact ⟨_, .finish reading unread, rfl⟩
    | cons line rest =>
      cases line with
      | unreadable => exact ⟨_, .broken reading unread, rfl⟩
      | blank => exact ⟨_, .blank reading unread, rfl⟩
      | malformed => exact ⟨_, .malformed reading unread, rfl⟩
      | tick t =>
        -- With a receiver that is there nothing waits, so there is a place; without one the tick is refused.
        cases there : r.listening with
        | true =>
          have empty : r.queue = [] := by_contra fun some_tick => waiting ⟨there, some_tick⟩
          exact ⟨_, .send reading unread there (by rw [empty]; exact some_place), there⟩
        | false => exact ⟨_, .refused reading unread there, there⟩

/-- What a relay has come to, from an engine and a stream of bytes. -/
structure Account (e : Engine) (bytes : List UInt8) (r : Relay) : Prop where
  /-- The engine is the one that has taken in what has been taken in. -/
  engine : r.engine = e.ingestAll r.taken
  /-- A feed with room for some ticks more is what has been sent, and the feed of what is unread with that room. -/
  feed : r.ended = none → ∀ room : Option Nat,
    forwardBytes (room.map (· + r.sent.length)) bytes
      = { forward room r.stats r.unread with ticks := r.sent ++ (forward room r.stats r.unread).ticks }
  /-- A feed that has ended is one with some room, and without limit if the receiver is there. -/
  ended : ∀ result, r.ended = some result →
    ∃ room, (r.listening = true → room = none) ∧ forwardBytes room bytes = ⟨r.sent, result⟩

theorem Account.start (e : Engine) (bytes : List UInt8) : Account e bytes (start e bytes) where
  engine := rfl
  feed _ room := by cases room <;> rfl
  ended _ h := by cases h

/-- A line that is passed over leaves what has been sent as it is. -/
theorem Account.pass (account : Account e bytes r) (reading : r.ended = none) {rest : List Line}
    {stats : FeedStats} (same : ∀ room, forward room r.stats r.unread = forward room stats rest) :
    Account e bytes { r with unread := rest, stats } where
  engine := account.engine
  feed _ room := (account.feed reading room).trans (by rw [same]; rfl)
  ended result h := absurd (reading.symm.trans h) (Option.some_ne_none result).symm

/-- A reader that ends has read as much as there was room for. -/
theorem Account.close (account : Account e bytes r) (reading : r.ended = none) (room : Option Nat)
    {result : Except Failure FeedStats} (there : r.listening = true → room = none)
    (last : forward room r.stats r.unread = ⟨[], result⟩) : Account e bytes { r with ended := some result } where
  engine := account.engine
  feed h := absurd h (Option.some_ne_none result)
  ended other h := by
    obtain rfl : result = other := Option.some.inj h
    refine ⟨room.map (· + r.sent.length), fun listening => by rw [there listening]; rfl, ?_⟩
    rw [account.feed reading, last, List.append_nil]
    rfl

theorem Account.step (account : Account e bytes r) (step : Step capacity r next) : Account e bytes next := by
  cases step with
  | blank reading next => exact account.pass reading fun room => by rw [next, forward]
  | malformed reading next => exact account.pass reading fun room => by rw [next, forward]
  | @send t rest reading next there place =>
    have sent : r.taken ++ (r.queue ++ [t]) = r.sent ++ [t] := (List.append_assoc _ _ _).symm
    constructor
    · exact account.engine
    · intro _ room
      have before := account.feed reading (room.map (· + 1))
      have open_still : room.map (· + 1) ≠ some 0 := by cases room <;> simp
      have one_less : (room.map (· + 1)).map (· - 1) = room := by cases room <;> simp
      have more : (room.map (· + 1)).map (· + r.sent.length) = room.map (· + (r.sent ++ [t]).length) := by
        cases room <;> simp [Nat.add_assoc, Nat.add_comm 1]
      rw [more, next, forward, if_neg open_still, one_less] at before
      rw [Relay.sent, sent, before]
      simp
    · exact fun result h => absurd (reading.symm.trans h) (Option.some_ne_none result).symm
  | refused reading next gone =>
    exact account.close reading (some 0) (fun there => absurd (gone.symm.trans there) Bool.false_ne_true)
      (by rw [next, forward, if_pos rfl])
  | broken reading next => exact account.close reading none (fun _ => rfl) (by rw [next, forward])
  | finish reading next => exact account.close reading none (fun _ => rfl) (by rw [next, forward])
  | @take t rest there next =>
    have sent : r.taken ++ [t] ++ rest = r.sent := by rw [Relay.sent, next, List.append_assoc, List.singleton_append]
    constructor
    · rw [Engine.ingestAll_concat, ← account.engine]
    · rw [Relay.sent, sent]
      exact account.feed
    · rw [Relay.sent, sent]
      exact account.ended
  | leave there =>
    refine ⟨account.engine, account.feed, fun result h => ?_⟩
    obtain ⟨room, -, fed⟩ := account.ended result h
    exact ⟨room, fun gone => absurd gone Bool.false_ne_true, fed⟩

theorem Account.of_run (run : Relation.ReflTransGen (Step capacity) (Relay.start e bytes) r) :
    Account e bytes r := by
  induction run with
  | refl => exact .start e bytes
  | tail _ step account => exact account.step step

end Relay

/-! ## Nothing lost, nothing doubled -/

/-- **A feed loses and doubles nothing.** Of every text, to a receiver that stays, the ticks are sent that its bodies
spell, in their order, and each body counts as sent or as malformed. An engine that takes these ticks in has the store
that they leave one by one; each of them is counted, as accepted if the store has accepted it, and nothing else is
changed. A receiver that takes `m` ticks, and then no more, has the same feed if there are no more; if there are, it
gets the first `m` of them, and the next body that spells a tick is read, counted, and the last.

It comes to the same where ticks are sent and taken in one by one, by two parties, through a queue, in whatever order:
what has been taken in is in the engine as by `ingestAll`, each step leaves less to do, and there is something to do
until the reader has ended and a receiver that is there has taken in what waits. When the reader has ended, what has
been sent and the counts are those of a feed as above, and of one to a receiver that stays if it is still there. -/
theorem feed_accounts (text : String) (e : Engine) :
    let bytes := Text.toBytes text
    let bodies := Feed.bodies text
    let ticks := bodies.filterMap Feed.tick?
    let taken := e.ingestAll ticks
    (ticks.length + Feed.countMalformed bodies = bodies.length ∧
      Feed.forwardBytes none bytes = ⟨ticks, .ok ⟨bodies.length, ticks.length, Feed.countMalformed bodies⟩⟩) ∧
    (taken = { e with store := e.store.addAll ticks, health := e.health.told (e.store.answers ticks) } ∧
      taken.health.accepted = e.health.accepted + (e.store.answers ticks).countP Except.isOk ∧
      taken.health.accepted + taken.health.rejected = e.health.accepted + e.health.rejected + ticks.length) ∧
    (∀ m, ticks.length ≤ m → Feed.forwardBytes (some m) bytes = Feed.forwardBytes none bytes) ∧
    (∀ m < ticks.length, ∃ front body behind, bodies = front ++ body :: behind ∧
      (Feed.tick? body).isSome = true ∧ front.filterMap Feed.tick? = ticks.take m ∧
      Feed.forwardBytes (some m) bytes
        = ⟨ticks.take m, .ok ⟨m + Feed.countMalformed front + 1, m, Feed.countMalformed front⟩⟩) ∧
    ∀ (capacity : Nat) (r : Relay), Relation.ReflTransGen (Relay.Step capacity) (Relay.start e bytes) r →
      r.engine = e.ingestAll r.taken ∧
      (∀ next, Relay.Step capacity r next → next.work < r.work) ∧
      (0 < capacity → r.ended = none ∨ r.listening = true ∧ r.queue ≠ [] →
        ∃ next, Relay.Step capacity r next ∧ next.listening = r.listening) ∧
      ∀ result, r.ended = some result →
        ∃ room, (r.listening = true → room = none) ∧ Feed.forwardBytes room bytes = ⟨r.taken ++ r.queue, result⟩ := by
  intro bytes bodies ticks taken
  have balance := Feed.length_ticks_add_countMalformed bodies
  have taken_eq : taken = _ := e.ingestAll_eq ticks
  refine ⟨⟨balance, ?_⟩, ⟨taken_eq, ?_, ?_⟩, fun m room => ?_, fun m few => ?_, fun capacity r run => ?_⟩
  · rw [Feed.forwardBytes_toBytes, Feed.forward_of_unlimited]
    simp [FeedStats.after, bodies, ticks]
  · rw [taken_eq]
    exact Health.accepted_told _ _
  · rw [taken_eq, ← e.store.length_answers ticks]
    exact Health.accepted_add_rejected_told _ _
  · rw [Feed.forwardBytes_toBytes, Feed.forwardBytes_toBytes, Feed.forward_of_room _ room]
  · obtain ⟨front, body, behind, split, spelled, sent, fed⟩ := Feed.forward_of_no_room bodies few ⟨0, 0, 0⟩
    have count : (front.filterMap Feed.tick?).length = m := by
      rw [sent, List.length_take, Nat.min_eq_left few.le]
    have front_balance := Feed.length_ticks_add_countMalformed front
    rw [count] at front_balance
    refine ⟨front, body, behind, split, spelled, sent, ?_⟩
    rw [Feed.forwardBytes_toBytes, fed, sent, FeedStats.after, count, ← front_balance]
    simp [ticks]
  · have account := Relay.Account.of_run run
    exact ⟨account.engine, fun next step => step.work_lt, fun place left => Relay.exists_step place left,
      account.ended⟩

end FxPulse
