import FxPulse.Proofs.Failure
import FxPulse.Proofs.Oscillator.Cursor

/-!
# `Proofs/Oscillator/Entry.lean` — one entry of a bank and its source

What an entry has read is a stretch of the history of its source. It begins where the first end that was
handed over began, and reaches as far as the last one did:

> an entry has taken in the points of such a stretch, in order and each of them once, and remembers no
> more of them than its state, its last output and its cursor (`BankEntry.HasRead`).

A refresh makes the stretch longer by just the points that are behind it (`Tracks.readOn`), however much
of what has been read before is handed over with them.
-/

set_option autoImplicit false

namespace FxPulse

open Point (Apart Ordered countAt)

/-- An oscillator that takes in some points one after the other, with its last output. -/
def Oscillator.follow (o : Oscillator) (bands : Bands) (points : List Point) :
    Oscillator × OscillatorOutput :=
  points.foldl (fun now p => now.1.update p bands) (o, o.insufficient)

namespace BankEntry

/-- The entry has taken in these points, and no others. -/
structure HasRead (e : BankEntry) (points : List Point) : Prop where
  state : (e.state, e.output) = (Oscillator.new e.spec.kind).follow e.spec.bands points
  cursor : e.cursor = Cursor.after points

theorem make_eq_ok_iff {spec : OscillatorSpec} {e : BankEntry} :
    make spec = .ok e ↔ (∀ n ∈ spec.kind.capacities, n ≤ Ring.greatestCapacity) ∧
      e = start spec (Oscillator.new spec.kind) := by
  rw [make, bind_eq_ok_iff]
  constructor
  · rintro ⟨state, made, same⟩
    obtain ⟨fits, rfl⟩ := Oscillator.make_eq_ok_iff.1 made
    exact ⟨fits, (Except.ok.inj same).symm⟩
  · rintro ⟨fits, rfl⟩
    exact ⟨_, Oscillator.make_eq_ok_iff.2 ⟨fits, rfl⟩, rfl⟩

theorem hasRead_start (spec : OscillatorSpec) :
    (start spec (Oscillator.new spec.kind)).HasRead [] := ⟨rfl, rfl⟩

@[simp] theorem spec_start (spec : OscillatorSpec) (state : Oscillator) :
    (start spec state).spec = spec := rfl

@[simp] theorem spec_take (e : BankEntry) (p : Point) : (e.take p).spec = e.spec := rfl

@[simp] theorem takeAll_nil (e : BankEntry) : e.takeAll [] = e := rfl

@[simp] theorem spec_takeAll (e : BankEntry) (points : List Point) :
    (e.takeAll points).spec = e.spec := by
  induction points generalizing e with
  | nil => rfl
  | cons p rest ih => exact (ih (e.take p)).trans (spec_take e p)

theorem HasRead.take {e : BankEntry} {points : List Point} (h : e.HasRead points) (p : Point) :
    (e.take p).HasRead (points ++ [p]) := by
  constructor
  · rw [Oscillator.follow, List.foldl_concat]
    show ((e.state.update p e.spec.bands).1, (e.state.update p e.spec.bands).2) = _
    have state := congrArg Prod.fst h.state
    dsimp only at state
    rw [state]
    rfl
  · rw [Cursor.after_concat, ← h.cursor]
    rfl

theorem HasRead.takeAll {e : BankEntry} {points : List Point} (h : e.HasRead points)
    (more : List Point) : (e.takeAll more).HasRead (points ++ more) := by
  induction more generalizing e points with
  | nil =>
    rw [List.append_nil]
    exact h
  | cons p rest ih =>
    have next := ih (h.take p)
    rw [List.append_assoc, List.singleton_append] at next
    exact next

theorem HasRead.unread_nil {e : BankEntry} (h : e.HasRead []) (points : Array Point) :
    e.unread points = points.toList := by
  have none_read : e.cursor = none := h.cursor
  rw [unread, none_read]
  rfl

/-- **Unread are the points behind those read**, wherever the end that is handed over begins: `skipped`
and `read` together are `gone` and `front`, and the end holds `front` and the points behind. -/
theorem HasRead.unread_eq {e : BankEntry} {skipped read gone front behind : List Point}
    {points : Array Point} (h : e.HasRead read) (some_read : read ≠ [])
    (sorted : Ordered (skipped ++ read ++ behind)) (own : Apart skipped read)
    (before : gone ++ front = skipped ++ read) (handed : points.toList = front ++ behind)
    (apart : Apart gone points.toList) : e.unread points = behind := by
  obtain ⟨last, hlast⟩ := Option.isSome_iff_exists.1 (List.getLast?_isSome.2 some_read)
  have read_sorted : Ordered read :=
    (List.pairwise_append.1 (List.pairwise_append.1 sorted).1).2.1
  have cursor := Cursor.after_eq read_sorted hlast
  have whole : (gone ++ front).getLast? = some last := by
    rw [before, List.getLast?_append, hlast]
    rfl
  have counted : countAt read last.ts = countAt (gone ++ front) last.ts := by
    rw [before, own.countAt_append (List.mem_of_getLast? hlast)]
  have resumed : Cursor.resume ⟨last.ts, countAt read last.ts⟩ points = front.length := by
    rw [counted]
    refine Cursor.resume_after handed ?_ apart whole
    rwa [handed, ← List.append_assoc, before]
  rw [unread, h.cursor, cursor]
  dsimp only
  rw [resumed, handed, List.drop_left]

/-- Points behind those read are not before the time of the cursor. -/
theorem HasRead.le_of_cursor {e : BankEntry} {read behind : List Point} {ts : Int}
    (h : e.HasRead read) (cursor : e.cursor.map (·.ts) = some ts) (sorted : Ordered (read ++ behind)) :
    ∀ p ∈ behind, ts ≤ p.ts := by
  intro p hp
  have order := List.pairwise_append.1 sorted
  cases hlast : read.getLast? with
  | none =>
    rw [h.cursor, List.getLast?_eq_none_iff.1 hlast] at cursor
    cases cursor
  | some last =>
    rw [h.cursor, Cursor.after_eq order.1 hlast] at cursor
    cases cursor
    exact order.2.2 last (List.mem_of_getLast? hlast) p hp

/-- An end that is cut off at a time is one of those. -/
theorem HasRead.unread_filter {e : BankEntry} {read behind : List Point} {points : Array Point}
    {cutoff : Int} (h : e.HasRead read) (sorted : Ordered (read ++ behind))
    (late : ∀ p ∈ behind, cutoff ≤ p.ts)
    (handed : points.toList = (read ++ behind).filter fun p => cutoff ≤ p.ts) :
    e.unread points = behind := by
  have kept : behind.filter (fun p => decide (cutoff ≤ p.ts)) = behind := by
    rw [List.filter_eq_self]
    intro p hp
    exact decide_eq_true (late p hp)
  rw [List.filter_append, kept] at handed
  by_cases nothing : read = []
  · subst nothing
    exact (h.unread_nil points).trans handed
  · have order : Ordered read := (List.pairwise_append.1 sorted).1
    have whole : Ordered ([] ++ read ++ behind) := sorted
    have own : Apart [] read := fun p hp => by cases hp
    refine h.unread_eq nothing whole own (order.filter_not_append_filter cutoff) handed ?_
    intro p hp q hq
    rw [handed, List.mem_append, List.mem_filter] at hq
    have early := (List.mem_filter.1 hp).2
    have from_cutoff : cutoff ≤ q.ts := by
      rcases hq with ⟨-, fresh⟩ | new
      · exact of_decide_eq_true fresh
      · exact late q new
    simp at early
    omega

/-- Reads on from what a provider has. -/
def readOn (e : BankEntry) (provider : Provider) : BankEntry := e.takeAll (e.pending provider)

@[simp] theorem spec_readOn (e : BankEntry) (provider : Provider) :
    (e.readOn provider).spec = e.spec := spec_takeAll e _

end BankEntry

/-! ## Stretches of a history -/

/-- A part of a history, from one place up to another; the second place is no longer part of it. -/
structure Stretch where
  start : Nat
  stop : Nat
deriving DecidableEq, Repr

namespace Stretch

def points (s : Stretch) (history : List Point) : List Point := (history.take s.stop).drop s.start

/-- The end of a history that is handed over with an answer. An answer without points hands over
none. -/
def handed? (history : List Point) (answer : Option (Array Point)) : Option Stretch :=
  match answer with
  | some points =>
    if points.isEmpty then none else some ⟨history.length - points.size, history.length⟩
  | none => none

/-- From the start of the first of some stretches to the stop of the last one. -/
def span? (log : List Stretch) : Option Stretch :=
  match log.head?, log.getLast? with
  | some first, some last => some ⟨first.start, last.stop⟩
  | _, _ => none

/-- The points of a history from the first point of the first of some stretches up to the last point of
the last one. -/
def received (history : List Point) (log : List Stretch) : List Point :=
  match span? log with
  | some s => s.points history
  | none => []

theorem received_eq {history : List Point} {log : List Stretch} {s : Stretch}
    (h : span? log = some s) : received history log = s.points history := by
  rw [received, h]

theorem span?_eq_none {log : List Stretch} (h : span? log = none) : log = [] := by
  cases log with
  | nil => rfl
  | cons first rest =>
    rw [span?, List.head?_cons, List.getLast?_cons] at h
    cases h

/-- One stretch more moves the stop, not the start. -/
theorem span?_concat {log : List Stretch} {s : Stretch} (h : span? log = some s) (t : Stretch) :
    span? (log ++ [t]) = some ⟨s.start, t.stop⟩ := by
  cases log with
  | nil => cases h
  | cons first rest =>
    rw [span?, List.head?_cons, List.getLast?_cons] at h
    obtain rfl := Option.some.inj h
    rw [List.cons_append, span?, List.head?_cons, List.getLast?_cons, List.getLast?_concat]
    rfl

theorem take_append_points (s : Stretch) (history : List Point) (h : s.start ≤ s.stop) :
    history.take s.start ++ s.points history = history.take s.stop := by
  have inner : history.take s.start = (history.take s.stop).take s.start := by
    rw [List.take_take, Nat.min_eq_left h]
  rw [points, inner, List.take_append_drop]

theorem points_append_drop (s : Stretch) (history : List Point) (h : s.start ≤ s.stop) :
    s.points history ++ history.drop s.stop = history.drop s.start := by
  refine (List.append_right_inj (history.take s.start)).1 ?_
  rw [← List.append_assoc, take_append_points s history h, List.take_append_drop,
    List.take_append_drop]

/-- What has been handed over stays what it was when the history grows. -/
theorem points_of_isPrefix {s : Stretch} {history longer : List Point}
    (within : s.stop ≤ history.length) (h : history <+: longer) :
    s.points longer = s.points history := by
  obtain ⟨more, rfl⟩ := h
  rw [points, points, List.take_append_of_le_length within]

end Stretch

namespace BankEntry

open Stretch (span? received)

/-- What the provider answers when this entry asks it. -/
def asked (e : BankEntry) (provider : Provider) : Option (Array Point) :=
  provider e.spec.source (e.cursor.map (·.ts))

theorem pending_eq (e : BankEntry) (provider : Provider) :
    e.pending provider = ((e.asked provider).map e.unread).getD [] := by
  rw [pending, asked]
  cases provider e.spec.source (e.cursor.map (·.ts)) <;> rfl

/-- **What an answer has to be**, for an entry that was handed some stretches of the history before: an
end of the history that holds all points not yet read, and does not begin amid points that share a
time. -/
structure Serves (points : Array Point) (history : List Point) (log : List Stretch) : Prop where
  ending : points.toList <:+ history
  apart : Apart (history.take (history.length - points.size)) points.toList
  holdsUnread : ∀ s, span? log = some s → history.length - points.size ≤ s.stop

/-- The entry has read the history from the start of the first of the stretches up to the stop of the
last one. -/
structure Tracks (e : BankEntry) (history : List Point) (log : List Stretch) : Prop where
  hasRead : e.HasRead (received history log)
  place : ∀ s, span? log = some s →
    s.start < s.stop ∧ s.stop ≤ history.length ∧ Apart (history.take s.start) (s.points history)

theorem tracks_start (spec : OscillatorSpec) (history : List Point) :
    Tracks (start spec (Oscillator.new spec.kind)) history [] :=
  ⟨hasRead_start spec, fun _ h => by cases h⟩

/-- A history that grows has been read as far as before. -/
theorem Tracks.grow {e : BankEntry} {history longer : List Point} {log : List Stretch}
    (tracks : e.Tracks history log) (h : history <+: longer) : e.Tracks longer log := by
  constructor
  · have same : received longer log = received history log := by
      cases hs : span? log with
      | none => rw [received, received, hs]
      | some s =>
        rw [Stretch.received_eq hs, Stretch.received_eq hs,
          Stretch.points_of_isPrefix (tracks.place s hs).2.1 h]
    rw [same]
    exact tracks.hasRead
  · intro s hs
    obtain ⟨some_read, within, apart⟩ := tracks.place s hs
    refine ⟨some_read, Nat.le_trans within h.length_le, ?_⟩
    rw [Stretch.points_of_isPrefix within h]
    obtain ⟨more, rfl⟩ := h
    rwa [List.take_append_of_le_length (by omega)]

section ReadOn

variable {e : BankEntry} {history : List Point} {log : List Stretch} {points : Array Point}

/-- An end of the history is the stretch behind the points that it leaves out. -/
theorem Serves.toList_eq (serves : Serves points history log) :
    points.toList = history.drop (history.length - points.size) := by
  rw [← Array.length_toList]
  exact List.suffix_iff_eq_drop.1 serves.ending

/-- The first end that an entry is handed is read from its first point on. -/
theorem Tracks.first (tracks : e.Tracks history []) (serves : Serves points history [])
    (some_points : points ≠ #[]) :
    e.unread points = received history [⟨history.length - points.size, history.length⟩] ∧
      history.length - points.size < history.length := by
  have size : 0 < points.size := Array.size_pos_iff.2 some_points
  have shorter := serves.ending.length_le
  rw [Array.length_toList] at shorter
  refine ⟨?_, by omega⟩
  rw [tracks.hasRead.unread_nil, serves.toList_eq, received]
  show _ = (history.take history.length).drop _
  rw [List.take_length]

/-- Any later one is read from the stop of the last on. -/
theorem Tracks.next {s : Stretch} (tracks : e.Tracks history log) (sorted : Ordered history)
    (serves : Serves points history log) (hs : span? log = some s) :
    e.unread points = history.drop s.stop := by
  obtain ⟨some_read, within, apart⟩ := tracks.place s hs
  have reaches := serves.holdsUnread s hs
  have read := s.take_append_points history (Nat.le_of_lt some_read)
  let front : Stretch := ⟨history.length - points.size, s.stop⟩
  have handed : points.toList = front.points history ++ history.drop s.stop := by
    rw [serves.toList_eq, front.points_append_drop history reaches]
  have before : history.take front.start ++ front.points history
      = history.take s.start ++ s.points history := by
    rw [read, front.take_append_points history reaches]
  refine HasRead.unread_eq (Stretch.received_eq hs ▸ tracks.hasRead) ?_ ?_ apart before handed
    serves.apart
  · rw [Stretch.points, Ne, List.drop_eq_nil_iff, List.length_take]
    omega
  · rwa [read, List.take_append_drop]

/-- What was left out at the start is earlier than all that has come since. -/
theorem Tracks.apart_drop {s : Stretch} (tracks : e.Tracks history log) (sorted : Ordered history)
    (hs : span? log = some s) : Apart (history.take s.start) (history.drop s.start) := by
  obtain ⟨some_read, within, apart⟩ := tracks.place s hs
  intro p hp q hq
  obtain ⟨i, hi, rfl⟩ := List.mem_take_iff_getElem.1 hp
  obtain ⟨k, hk, rfl⟩ := List.mem_drop_iff_getElem.1 hq
  have first : history[s.start] ∈ s.points history := by
    rw [Stretch.points, List.mem_drop_iff_getElem]
    exact ⟨0, by rw [List.length_take]; omega, by simp⟩
  have before := sorted.le (i := i) (j := s.start) (by omega) (by omega)
  have behind := sorted.le (i := s.start) (j := s.start + k) (by omega) (by omega)
  have other := apart _ hp _ first
  omega

/-- The stretch that was read, with an end that was handed over, reaches to the end of the history. -/
theorem Tracks.handed (tracks : e.Tracks history log) (sorted : Ordered history)
    (serves : Serves points history log) (some_points : points ≠ #[]) :
    ∃ s, span? (log ++ [⟨history.length - points.size, history.length⟩]) = some s ∧
      s.start < s.stop ∧ s.stop = history.length ∧
      Apart (history.take s.start) (history.drop s.start) ∧
      s.points history = received history log ++ e.unread points := by
  cases hs : span? log with
  | none =>
    obtain rfl := Stretch.span?_eq_none hs
    obtain ⟨read, room⟩ := tracks.first serves some_points
    exact ⟨_, rfl, room, rfl, serves.toList_eq ▸ serves.apart, read.symm⟩
  | some s =>
    obtain ⟨some_read, within, -⟩ := tracks.place s hs
    refine ⟨⟨s.start, history.length⟩, Stretch.span?_concat hs _, Nat.lt_of_lt_of_le some_read within,
      rfl, tracks.apart_drop (s := s) sorted hs, ?_⟩
    rw [Stretch.received_eq hs, tracks.next sorted serves hs,
      s.points_append_drop history (Nat.le_of_lt some_read), Stretch.points, List.take_length]

/-- **A refresh takes in the points behind the stretch**, and no others. -/
theorem Tracks.readOn {provider : Provider} (tracks : e.Tracks history log) (sorted : Ordered history)
    (serves : ∀ points, e.asked provider = some points → Serves points history log) :
    (e.readOn provider).Tracks history
        (log ++ (Stretch.handed? history (e.asked provider)).toList) ∧
      received history (log ++ (Stretch.handed? history (e.asked provider)).toList)
        = received history log ++ e.pending provider := by
  rw [BankEntry.readOn, pending_eq]
  cases answer : e.asked provider with
  | none => exact ⟨by simpa [Stretch.handed?] using tracks, by simp [Stretch.handed?]⟩
  | some points =>
    by_cases some_points : points = #[]
    · -- Nothing is handed over, and nothing is there to be read.
      have nothing : e.unread points = [] := by rw [some_points]; exact List.drop_nil
      rw [Option.map_some, Option.getD_some, nothing, some_points]
      exact ⟨by simpa [Stretch.handed?] using tracks, by simp [Stretch.handed?]⟩
    · obtain ⟨s, span, some_read, stop, apart, read⟩ :=
        tracks.handed sorted (serves points answer) some_points
      have handed : Stretch.handed? history (some points)
          = some ⟨history.length - points.size, history.length⟩ := by
        rw [Stretch.handed?, if_neg (by simpa using some_points)]
      rw [handed, Option.map_some, Option.getD_some]
      refine ⟨⟨?_, fun s' hs' => ?_⟩, (Stretch.received_eq span).trans read⟩
      · rw [Option.toList_some, Stretch.received_eq span, read]
        exact tracks.hasRead.takeAll _
      · obtain rfl : s = s' := Option.some.inj (span.symm.trans hs')
        refine ⟨some_read, Nat.le_of_eq stop, ?_⟩
        rwa [Stretch.points, stop, List.take_length]

end ReadOn

end BankEntry

end FxPulse
