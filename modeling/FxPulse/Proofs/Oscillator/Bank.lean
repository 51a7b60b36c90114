import FxPulse.Proofs.Oscillator.Entry
import Mathlib.Algebra.BigOperators.Group.Finset.Sigma
import Mathlib.Algebra.BigOperators.Intervals

/-!
# `Proofs/Oscillator/Bank.lean` — a bank over time

A bank is asked for oscillators, histories grow, and now and then the bank is refreshed by a provider
that hands out ends of the histories as they are by then. `Run` says which sequences of such events
there are, and keeps for each entry which ends it was handed.

> Whatever the order of events, each entry is the oscillator that took in the points from the first
> point of the first end it was handed up to the last point of the last one, in order and each of them
> once; a refresh counts just the points that are new by this; and each entry would be the same in a
> bank of its own (`foldsOnce`).
-/

set_option autoImplicit false

namespace FxPulse

open Point (Apart Ordered)

namespace Bank

/-- Whether the rings of an oscillator can be stored. -/
def Fits (spec : OscillatorSpec) : Prop := ∀ n ∈ spec.kind.capacities, n ≤ Ring.greatestCapacity

theorem ensure_of_holds {b : Bank} {spec : OscillatorSpec} (held : b.holds spec = true) :
    b.ensure spec = .ok (b, false) := if_pos held

theorem ensure_eq_ok_iff {b : Bank} {spec : OscillatorSpec} (fresh : b.holds spec = false)
    {answer : Bank × Bool} : b.ensure spec = .ok answer ↔ Fits spec ∧
      answer = (⟨b.entries ++ [BankEntry.start spec (Oscillator.new spec.kind)]⟩, true) := by
  rw [ensure, fresh, if_neg Bool.false_ne_true, bind_eq_ok_iff]
  constructor
  · rintro ⟨e, made, same⟩
    obtain ⟨fits, rfl⟩ := BankEntry.make_eq_ok_iff.1 made
    exact ⟨fits, (Except.ok.inj same).symm⟩
  · rintro ⟨fits, rfl⟩
    exact ⟨_, BankEntry.make_eq_ok_iff.2 ⟨fits, rfl⟩, rfl⟩

theorem exists_ensure (b : Bank) {spec : OscillatorSpec} (fits : Fits spec) :
    ∃ answer, b.ensure spec = .ok answer := by
  cases held : b.holds spec with
  | true => exact ⟨_, ensure_of_holds held⟩
  | false => exact ⟨_, (ensure_eq_ok_iff held).2 ⟨fits, rfl⟩⟩

theorem holds_append {b : Bank} {spec : OscillatorSpec} (h : b.holds spec = true)
    (entries : List BankEntry) : (Bank.mk (b.entries ++ entries)).holds spec = true := by
  rw [holds, List.any_append, Bool.or_eq_true]
  exact .inl h

/-- What one request does: nothing, or it adds an oscillator that was not held. -/
theorem ensure_eq_ok {b after : Bank} {spec : OscillatorSpec} {isNew : Bool}
    (h : b.ensure spec = .ok (after, isNew)) :
    (b.holds spec = true ∧ after = b ∧ isNew = false) ∨
      (b.holds spec = false ∧
        after = ⟨b.entries ++ [BankEntry.start spec (Oscillator.new spec.kind)]⟩ ∧ isNew = true) := by
  cases held : b.holds spec with
  | true =>
    rw [ensure_of_holds held] at h
    cases h
    exact .inl ⟨rfl, rfl, rfl⟩
  | false =>
    obtain ⟨-, same⟩ := (ensure_eq_ok_iff held).1 h
    cases same
    exact .inr ⟨rfl, rfl, rfl⟩

/-- One oscillator is asked for, and counted if it is added. -/
def ensureOne (progress : Bank × Nat) (spec : OscillatorSpec) : Except Fault (Bank × Nat) :=
  (progress.1.ensure spec).map fun (bank, isNew) => (bank, progress.2 + isNew.toNat)

theorem ensureAll_eq (b : Bank) (specs : List OscillatorSpec) :
    b.ensureAll specs = specs.foldlM ensureOne (b, 0) := by
  have step : ∀ progress spec, (do
      let (bank, isNew) ← Bank.ensure progress.1 spec
      return (bank, if isNew then progress.2 + 1 else progress.2)) = ensureOne progress spec := by
    intro progress spec
    unfold ensureOne
    cases progress.1.ensure spec with
    | error fault => rfl
    | ok answer =>
      obtain ⟨bank, isNew⟩ := answer
      cases isNew <;> rfl
  exact congrArg (fun f => specs.foldlM f (b, 0)) (funext fun progress => funext (step progress))

/-- A count from before goes along. -/
theorem foldlM_ensureOne (specs : List OscillatorSpec) (b : Bank) (n : Nat) :
    specs.foldlM ensureOne (b, n)
      = (specs.foldlM ensureOne (b, 0)).map fun (bank, added) => (bank, added + n) := by
  induction specs generalizing b n with
  | nil => exact congrArg (fun m => Except.ok (b, m)) (Nat.zero_add n).symm
  | cons spec rest ih =>
    rw [List.foldlM_cons, List.foldlM_cons, ensureOne, ensureOne]
    cases b.ensure spec with
    | error fault => rfl
    | ok answer =>
      obtain ⟨bank, isNew⟩ := answer
      show rest.foldlM ensureOne (bank, n + isNew.toNat)
        = (rest.foldlM ensureOne (bank, 0 + isNew.toNat)).map _
      rw [ih bank (n + _), ih bank (0 + _)]
      cases rest.foldlM ensureOne (bank, 0) with
      | error fault => rfl
      | ok whole =>
        refine congrArg (fun m => Except.ok (whole.1, m)) ?_
        omega

/-- One is asked for after the other, and those added are counted together. -/
theorem ensureAll_cons_eq_ok_iff {b after : Bank} {spec : OscillatorSpec}
    {rest : List OscillatorSpec} {added : Nat} :
    b.ensureAll (spec :: rest) = .ok (after, added) ↔
      ∃ mid isNew more, b.ensure spec = .ok (mid, isNew) ∧ mid.ensureAll rest = .ok (after, more) ∧
        added = more + isNew.toNat := by
  rw [ensureAll_eq, List.foldlM_cons, ensureOne]
  cases b.ensure spec with
  | error fault => simp [bind, Except.bind, Except.map]
  | ok answer =>
    obtain ⟨mid, isNew⟩ := answer
    show rest.foldlM ensureOne (mid, 0 + isNew.toNat) = _ ↔ _
    rw [foldlM_ensureOne, ← ensureAll_eq, Nat.zero_add]
    constructor
    · intro h
      cases later : mid.ensureAll rest with
      | error fault =>
        rw [later] at h
        cases h
      | ok whole =>
        rw [later] at h
        cases h
        exact ⟨mid, isNew, whole.2, rfl, later, rfl⟩
    · rintro ⟨_, _, more, same, later, rfl⟩
      cases same
      rw [later]
      rfl

/-- Setting up several oscillators adds entries that have read nothing, for those that were not held.
Afterwards all of them are held, if they are the same as themselves. -/
theorem ensureAll_eq_ok {b after : Bank} {specs : List OscillatorSpec} {added : Nat}
    (h : b.ensureAll specs = .ok (after, added)) :
    (∃ entries, after = ⟨b.entries ++ entries⟩ ∧ ∀ e ∈ entries, ∃ spec ∈ specs,
      b.holds spec = false ∧ e = BankEntry.start spec (Oscillator.new spec.kind)) ∧
      ∀ spec ∈ specs, spec.sameAs spec = true → after.holds spec = true := by
  induction specs generalizing b added with
  | nil =>
    cases h
    exact ⟨⟨[], by rw [List.append_nil], by simp⟩, by simp⟩
  | cons spec rest ih =>
    obtain ⟨mid, isNew, more, first, later, -⟩ := ensureAll_cons_eq_ok_iff.1 h
    obtain ⟨⟨entries, grown, fresh⟩, all⟩ := ih later
    rcases ensure_eq_ok first with ⟨held, rfl, -⟩ | ⟨missing, rfl, -⟩
    · refine ⟨⟨entries, grown, fun e he => ?_⟩, List.forall_mem_cons.2 ⟨fun _ => ?_, all⟩⟩
      · obtain ⟨spec, mem, rest⟩ := fresh e he
        exact ⟨spec, List.mem_cons_of_mem _ mem, rest⟩
      · rw [grown]
        exact holds_append held entries
    · refine ⟨⟨BankEntry.start spec (Oscillator.new spec.kind) :: entries, ?_,
        List.forall_mem_cons.2 ⟨⟨spec, List.mem_cons_self, missing, rfl⟩, fun e he => ?_⟩⟩,
        List.forall_mem_cons.2 ⟨fun same => ?_, all⟩⟩
      · rw [grown, List.append_assoc]
        rfl
      · obtain ⟨other, mem, missing, made⟩ := fresh e he
        refine ⟨other, List.mem_cons_of_mem _ mem, ?_, made⟩
        by_contra there
        rw [Bool.not_eq_false] at there
        rw [holds_append there] at missing
        cases missing
      · rw [grown]
        refine holds_append ?_ entries
        rw [holds, List.any_append, List.any_cons, BankEntry.spec_start, same, Bool.true_or,
          Bool.or_true]

theorem exists_ensureAll (b : Bank) {specs : List OscillatorSpec} (fits : ∀ spec ∈ specs, Fits spec) :
    ∃ answer, b.ensureAll specs = .ok answer := by
  induction specs generalizing b with
  | nil => exact ⟨_, rfl⟩
  | cons spec rest ih =>
    obtain ⟨own, others⟩ := List.forall_mem_cons.1 fits
    obtain ⟨⟨mid, isNew⟩, ensured⟩ := exists_ensure b own
    obtain ⟨⟨after, more⟩, later⟩ := ih mid others
    exact ⟨_, ensureAll_cons_eq_ok_iff.2 ⟨mid, isNew, more, ensured, later, rfl⟩⟩

theorem refresh_eq (b : Bank) (provider : Provider) :
    b.refresh provider = (⟨b.entries.map (·.readOn provider)⟩,
      (b.entries.map fun e => (e.pending provider).length).sum) := by
  rw [refresh]
  congr 1
  · rw [List.map_map]
    rfl
  · rw [List.sum_eq_foldl, List.foldl_map, List.foldl_map]

/-! ## Events -/

/-- What can happen around a bank. -/
inductive Event where
  | ensure (spec : OscillatorSpec)
  | grow (history : Source → List Point)
  | refresh (provider : Provider)

def Event.isEnsure : Event → Bool
  | ensure _ => true
  | _ => false

/-- A bank with the histories of its sources, and the ends that each entry has been handed. -/
structure Scene where
  bank : Bank
  history : Source → List Point
  handed : List (List Stretch)

namespace Scene

def empty : Scene := ⟨∅, fun _ => [], []⟩

/-- Each entry with the ends that it has been handed. -/
def watched (w : Scene) : List (BankEntry × List Stretch) := w.bank.entries.zip w.handed

/-- An entry and the ends it has been handed, after one more refresh. -/
def turn (w : Scene) (provider : Provider) : BankEntry × List Stretch → BankEntry × List Stretch
  | (e, log) => (e.readOn provider,
      log ++ (Stretch.handed? (w.history e.spec.source) (e.asked provider)).toList)

def perform (w : Scene) : Event → Except Fault Scene
  | .ensure spec => do
    let (bank, isNew) ← w.bank.ensure spec
    return { w with bank, handed := if isNew then w.handed ++ [[]] else w.handed }
  | .grow history => return { w with history }
  | .refresh provider => return { w with
      bank := (w.bank.refresh provider).1
      handed := w.watched.map fun watched => (w.turn provider watched).2 }

/-- Histories only grow at their ends and stay in order of time; and for each entry, what the provider
answers is an end that serves it, if it answers anything. -/
def Allows (w : Scene) : Event → Prop
  | .ensure _ => True
  | .grow history => ∀ source, w.history source <+: history source ∧ Ordered (history source)
  | .refresh provider => ∀ e log, (e, log) ∈ w.watched →
      ∀ points, e.asked provider = some points →
        BankEntry.Serves points (w.history e.spec.source) log

/-- The points that all entries have taken in. -/
def folded (w : Scene) : Nat :=
  (w.watched.map fun (e, log) => (Stretch.received (w.history e.spec.source) log).length).sum

end Scene

/-- The events that there can be, one after the other, and the scene that they lead to. -/
inductive Run : List Event → Scene → Prop where
  | start : Run [] Scene.empty
  | step {events : List Event} {event : Event} {w after : Scene} (before : Run events w)
      (allowed : w.Allows event) (h : w.perform event = .ok after) : Run (events ++ [event]) after

namespace Scene

variable {w after : Scene} {provider : Provider}

/-! ## What an event does -/

/-- The scene after an oscillator that was not there has been added. -/
def added (w : Scene) (spec : OscillatorSpec) : Scene :=
  { w with
    bank := ⟨w.bank.entries ++ [BankEntry.start spec (Oscillator.new spec.kind)]⟩
    handed := w.handed ++ [[]] }

def refreshed (w : Scene) (provider : Provider) : Scene :=
  { w with
    bank := ⟨w.bank.entries.map (·.readOn provider)⟩
    handed := w.watched.map fun watched => (w.turn provider watched).2 }

theorem perform_ensure_iff {spec : OscillatorSpec} (fresh : w.bank.holds spec = false) :
    w.perform (.ensure spec) = .ok after ↔ Fits spec ∧ after = w.added spec := by
  rw [perform, bind_eq_ok_iff]
  constructor
  · rintro ⟨answer, ensured, same⟩
    obtain ⟨fits, rfl⟩ := (ensure_eq_ok_iff fresh).1 ensured
    exact ⟨fits, (Except.ok.inj same).symm⟩
  · rintro ⟨fits, rfl⟩
    exact ⟨_, (ensure_eq_ok_iff fresh).2 ⟨fits, rfl⟩, rfl⟩

theorem perform_ensure {spec : OscillatorSpec} (h : w.perform (.ensure spec) = .ok after) :
    (w.bank.holds spec = true ∧ after = w) ∨ (Fits spec ∧ after = w.added spec) := by
  cases held : w.bank.holds spec with
  | true =>
    rw [perform, ensure_of_holds held] at h
    exact .inl ⟨rfl, (Except.ok.inj h).symm⟩
  | false => exact .inr ((perform_ensure_iff held).1 h)

theorem perform_refresh (w : Scene) (provider : Provider) :
    w.perform (.refresh provider) = .ok (w.refreshed provider) := by
  rw [perform, refresh_eq]
  rfl

theorem perform_grow (w : Scene) (history : Source → List Point) :
    w.perform (.grow history) = .ok { w with history } := rfl

/-- Every entry has its log of ends. -/
def Paired (w : Scene) : Prop := w.handed.length = w.bank.entries.length

theorem watched_added (paired : w.Paired) (spec : OscillatorSpec) :
    (w.added spec).watched
      = w.watched ++ [(BankEntry.start spec (Oscillator.new spec.kind), [])] :=
  List.zip_append paired.symm

theorem watched_refreshed (paired : w.Paired) :
    (w.refreshed provider).watched = w.watched.map (w.turn provider) := by
  have entries : w.watched.map Prod.fst = w.bank.entries :=
    List.map_fst_zip (Nat.le_of_eq paired.symm)
  show (w.bank.entries.map (·.readOn provider)).zip
    (w.watched.map fun watched => (w.turn provider watched).2) = _
  rw [← entries, List.map_map, List.zip_map']
  rfl

/-! ## What every event keeps -/

/-- What a scene is like after any events: histories are in order of time, and each entry has read the
stretch of its source that its log tells. -/
structure Sound (w : Scene) : Prop where
  paired : w.Paired
  sorted : ∀ source, Ordered (w.history source)
  tracks : ∀ e log, (e, log) ∈ w.watched → e.Tracks (w.history e.spec.source) log

theorem Sound.added (sound : w.Sound) (spec : OscillatorSpec) : (w.added spec).Sound where
  paired := by
    show (w.handed ++ [[]]).length = (w.bank.entries ++ [_]).length
    rw [List.length_append, List.length_append, sound.paired]
    rfl
  sorted := sound.sorted
  tracks e log watched := by
    rw [watched_added sound.paired, List.mem_append, List.mem_singleton] at watched
    rcases watched with old | new
    · exact sound.tracks e log old
    · cases new
      exact BankEntry.tracks_start spec _

theorem Sound.grown (sound : w.Sound) {history : Source → List Point}
    (allowed : w.Allows (.grow history)) : Sound { w with history } where
  paired := sound.paired
  sorted source := (allowed source).2
  tracks e log watched := (sound.tracks e log watched).grow (allowed e.spec.source).1

/-- What one entry takes in at a refresh. -/
theorem Sound.turn (sound : w.Sound) (allowed : w.Allows (.refresh provider)) {e : BankEntry}
    {log : List Stretch} (watched : (e, log) ∈ w.watched) :
    (w.turn provider (e, log)).1.Tracks (w.history e.spec.source) (w.turn provider (e, log)).2 ∧
      Stretch.received (w.history e.spec.source) (w.turn provider (e, log)).2
        = Stretch.received (w.history e.spec.source) log ++ e.pending provider :=
  (sound.tracks e log watched).readOn (sound.sorted _) (allowed e log watched)

theorem Sound.refreshed (sound : w.Sound) (allowed : w.Allows (.refresh provider)) :
    (w.refreshed provider).Sound where
  paired := by
    show (w.watched.map _).length = (w.bank.entries.map _).length
    rw [List.length_map, List.length_map, watched, List.length_zip, sound.paired, Nat.min_self]
  sorted := sound.sorted
  tracks e log watched := by
    rw [watched_refreshed sound.paired, List.mem_map] at watched
    obtain ⟨⟨old, earlier⟩, held, same⟩ := watched
    cases same
    rw [BankEntry.spec_readOn]
    exact (sound.turn allowed held).1

theorem Sound.perform {event : Event} (sound : w.Sound) (allowed : w.Allows event)
    (h : w.perform event = .ok after) : after.Sound := by
  cases event with
  | ensure spec =>
    rcases perform_ensure h with ⟨-, rfl⟩ | ⟨-, rfl⟩
    · exact sound
    · exact sound.added spec
  | grow history =>
    rw [perform_grow] at h
    exact Except.ok.inj h ▸ sound.grown allowed
  | refresh provider =>
    rw [perform_refresh] at h
    exact Except.ok.inj h ▸ sound.refreshed allowed

/-- **A refresh counts what it takes in**: what it tells and what had been taken in before is what has
been taken in after it. -/
theorem Sound.folded_refreshed (sound : w.Sound) (allowed : w.Allows (.refresh provider)) :
    (w.bank.refresh provider).2 + w.folded = (w.refreshed provider).folded := by
  have entries : w.bank.entries = w.watched.map Prod.fst :=
    (List.map_fst_zip (Nat.le_of_eq sound.paired.symm)).symm
  rw [refresh_eq, folded, folded, watched_refreshed sound.paired, entries, List.map_map,
    List.map_map, ← List.sum_map_add, List.map_map]
  congr 1
  refine List.map_congr_left fun ⟨e, log⟩ watched => ?_
  have longer := congrArg List.length (sound.turn allowed watched).2
  rw [List.length_append] at longer
  show (e.pending provider).length + _ = (Stretch.received (w.history (e.readOn provider).spec.source)
    (w.turn provider (e, log)).2).length
  rw [BankEntry.spec_readOn, longer, Nat.add_comm]

end Scene

open Scene (Sound)

theorem Run.sound {events : List Event} {w : Scene} (run : Run events w) : w.Sound := by
  induction run with
  | start => exact ⟨rfl, fun _ => List.Pairwise.nil, fun _ _ watched => by cases watched⟩
  | step before allowed h ih => exact ih.perform allowed h

/-! ## A bank of its own -/

/-- The events other than those that ask for an oscillator. -/
def Event.quiet (events : List Event) : List Event := events.filter (!·.isEnsure)

theorem Event.quiet_concat (events : List Event) (event : Event) :
    quiet (events ++ [event]) = if event.isEnsure then quiet events else quiet events ++ [event] := by
  rw [quiet, List.filter_append, List.filter_singleton]
  cases event.isEnsure
  · rfl
  · exact List.append_nil _

namespace Scene

/-- A bank with one entry. -/
def single (history : Source → List Point) (e : BankEntry) (log : List Stretch) : Scene :=
  ⟨⟨[e]⟩, history, [log]⟩

theorem watched_single (history : Source → List Point) (e : BankEntry) (log : List Stretch) :
    (single history e log).watched = [(e, log)] := rfl

theorem allows_single {history : Source → List Point} {e : BankEntry} {log : List Stretch}
    {provider : Provider} (serves : ∀ points, e.asked provider = some points →
      BankEntry.Serves points (history e.spec.source) log) :
    (single history e log).Allows (.refresh provider) := by
  intro other others watched
  rw [watched_single, List.mem_singleton] at watched
  cases watched
  exact serves

end Scene

open Event (quiet)

/-- Without being asked, a bank stays empty. -/
theorem Run.unasked {events : List Event} {w : Scene} (run : Run events w) :
    Run (quiet events) ⟨∅, w.history, []⟩ := by
  induction run with
  | start => exact .start
  | @step events event w after before allowed h ih =>
    rw [Event.quiet_concat]
    cases event with
    | ensure spec =>
      have same : after.history = w.history := by
        rcases Scene.perform_ensure h with ⟨-, rfl⟩ | ⟨-, rfl⟩ <;> rfl
      rw [same]
      exact ih
    | grow history =>
      cases h
      exact .step ih allowed rfl
    | refresh provider =>
      cases h
      exact .step ih (fun _ _ watched => by cases watched) rfl

/-- **Each entry is that of a bank of its own**, which is asked for it at the same time and for nothing
else, and for which all else goes on as it did. -/
theorem Run.exists_alone {events : List Event} {w : Scene} (run : Run events w) {e : BankEntry}
    {log : List Stretch} (watched : (e, log) ∈ w.watched) :
    ∃ before after, events = before ++ .ensure e.spec :: after ∧
      Run (quiet before ++ .ensure e.spec :: quiet after) (Scene.single w.history e log) := by
  induction run generalizing e log with
  | start => cases watched
  | @step events event w after before allowed h ih =>
    cases event with
    | ensure spec =>
      -- Whoever was there before stays, and is not asked for again.
      have stays : ∀ {e log}, (e, log) ∈ w.watched → ∃ early late,
          events ++ [.ensure spec] = early ++ .ensure e.spec :: late ∧
            Run (quiet early ++ .ensure e.spec :: quiet late) (Scene.single w.history e log) := by
        intro e log old
        obtain ⟨early, late, rfl, alone⟩ := ih old
        exact ⟨early, late ++ [.ensure spec], by simp, by rwa [Event.quiet_concat]⟩
      rcases Scene.perform_ensure h with ⟨-, rfl⟩ | ⟨fits, rfl⟩
      · exact stays watched
      · rw [Scene.watched_added before.sound.paired, List.mem_append, List.mem_singleton] at watched
        rcases watched with old | new
        · exact stays old
        · cases new
          have asked := (Scene.perform_ensure_iff (w := ⟨∅, w.history, []⟩) rfl).2 ⟨fits, rfl⟩
          exact ⟨events, [], rfl, .step before.unasked trivial asked⟩
    | grow history =>
      cases h
      obtain ⟨early, late, rfl, alone⟩ := ih watched
      refine ⟨early, late ++ [.grow history], by simp, ?_⟩
      have next : Run (_ ++ [.grow history]) _ := .step alone allowed rfl
      rwa [Event.quiet_concat, if_neg (by simp [Event.isEnsure]), ← List.cons_append,
        ← List.append_assoc]
    | refresh provider =>
      rw [Scene.perform_refresh] at h
      cases h
      rw [Scene.watched_refreshed before.sound.paired, List.mem_map] at watched
      obtain ⟨⟨old, earlier⟩, held, same⟩ := watched
      cases same
      obtain ⟨early, late, rfl, alone⟩ := ih held
      refine ⟨early, late ++ [.refresh provider], by simp, ?_⟩
      have next : Run (_ ++ [.refresh provider]) _ :=
        .step alone (Scene.allows_single (allowed old earlier held)) (Scene.perform_refresh _ _)
      rw [Event.quiet_concat, if_neg (by simp [Event.isEnsure]), ← List.cons_append,
        ← List.append_assoc, BankEntry.spec_readOn]
      exact next

/-! ## What a bank answers for -/

/-- What has been asked for is there. -/
theorem Run.exists_entry {events : List Event} {w : Scene} (run : Run events w)
    {spec : OscillatorSpec} (asked : .ensure spec ∈ events) :
    ∃ e ∈ w.bank.entries, e.spec = spec ∨ e.spec.sameAs spec = true := by
  induction run with
  | start => cases asked
  | @step events event w after before allowed h ih =>
    have stays : ∀ {spec}, (∃ e ∈ w.bank.entries, e.spec = spec ∨ e.spec.sameAs spec = true) →
        ∃ e ∈ after.bank.entries, e.spec = spec ∨ e.spec.sameAs spec = true := by
      rintro spec ⟨e, held, same⟩
      cases event with
      | ensure other =>
        rcases Scene.perform_ensure h with ⟨-, rfl⟩ | ⟨-, rfl⟩
        · exact ⟨e, held, same⟩
        · exact ⟨e, List.mem_append_left _ held, same⟩
      | grow history =>
        cases h
        exact ⟨e, held, same⟩
      | refresh provider =>
        rw [Scene.perform_refresh] at h
        cases h
        refine ⟨e.readOn provider, List.mem_map_of_mem held, ?_⟩
        rwa [BankEntry.spec_readOn]
    rw [List.mem_append, List.mem_singleton] at asked
    rcases asked with early | now
    · exact stays (ih early)
    · subst now
      rcases Scene.perform_ensure h with ⟨held, rfl⟩ | ⟨-, rfl⟩
      · obtain ⟨e, mem, same⟩ := List.any_eq_true.1 held
        exact ⟨e, mem, .inr same⟩
      · exact ⟨_, List.mem_append_right _ (List.mem_singleton.2 rfl), .inl rfl⟩

/-- **A bank folds every point once.** After any events, an entry is the oscillator that took in the
points from the first of the first end it was handed up to the last of the last one, and it would be the
same in a bank of its own. A refresh that comes next counts the points that are new by this. What has
been asked for is there, and any oscillator that can be stored can be asked for. -/
theorem foldsOnce {events : List Event} {w : Scene} (run : Run events w) :
    w.Paired ∧
      (∀ e log, (e, log) ∈ w.watched →
        (e.state, e.output) = (Oscillator.new e.spec.kind).follow e.spec.bands
            (Stretch.received (w.history e.spec.source) log) ∧
          ∃ before after, events = before ++ .ensure e.spec :: after ∧
            Run (quiet before ++ .ensure e.spec :: quiet after) (Scene.single w.history e log)) ∧
      (∀ provider, w.Allows (.refresh provider) →
        ∃ after, w.perform (.refresh provider) = .ok after ∧
          (w.bank.refresh provider).2 + w.folded = after.folded) ∧
      (∀ spec, .ensure spec ∈ events →
        ∃ e ∈ w.bank.entries, e.spec = spec ∨ e.spec.sameAs spec = true) ∧
      ∀ spec, Fits spec → ∃ after, w.perform (.ensure spec) = .ok after := by
  have sound := run.sound
  refine ⟨sound.paired, fun e log watched => ?_, fun provider allowed => ?_,
    fun spec asked => run.exists_entry asked, fun spec fits => ?_⟩
  · exact ⟨(sound.tracks e log watched).hasRead.state, run.exists_alone watched⟩
  · exact ⟨_, Scene.perform_refresh w provider, sound.folded_refreshed allowed⟩
  · obtain ⟨answer, ensured⟩ := exists_ensure w.bank fits
    exact ⟨_, bind_eq_ok_iff.2 ⟨answer, ensured, rfl⟩⟩

/-! The bank of one oscillator is handed the last two of three prices, and then, when two more have come
of which one is late, an end that begins with the last price read. -/

def euro : Source := .price "EURUSD"

def euroHistory (points : List Point) (source : Source) : List Point :=
  if source = euro then points else []

theorem euroHistory_grows {points more : List Point} (longer : points <+: more)
    (sorted : Ordered more) (source : Source) :
    euroHistory points source <+: euroHistory more source ∧ Ordered (euroHistory more source) := by
  unfold euroHistory
  split
  · exact ⟨longer, sorted⟩
  · exact ⟨List.nil_prefix, List.Pairwise.nil⟩

def euroEvents : List Event :=
  [.ensure ⟨euro, .zScore 3, ⟨2, -2⟩⟩, .grow (euroHistory [⟨1, 1⟩, ⟨2, 2⟩, ⟨3, 3⟩]),
    .refresh (fun _ _ => some #[⟨2, 2⟩, ⟨3, 3⟩]),
    .grow (euroHistory [⟨1, 1⟩, ⟨2, 2⟩, ⟨3, 3⟩, ⟨3, 0.5⟩, ⟨4, 4⟩]),
    .refresh (fun _ _ => some #[⟨3, 3⟩, ⟨3, 0.5⟩, ⟨4, 4⟩])]

theorem foldsOnce_late : ∃ w e log, Run euroEvents w ∧ (e, log) ∈ w.watched ∧
    (e.state, e.output) = (Oscillator.new (.zScore 3)).follow ⟨2, -2⟩
      [⟨2, 2⟩, ⟨3, 3⟩, ⟨3, 0.5⟩, ⟨4, 4⟩] := by
  let spec : OscillatorSpec := ⟨euro, .zScore 3, ⟨2, -2⟩⟩
  let early := euroHistory [⟨1, 1⟩, ⟨2, 2⟩, ⟨3, 3⟩]
  let whole := euroHistory [⟨1, 1⟩, ⟨2, 2⟩, ⟨3, 3⟩, ⟨3, 0.5⟩, ⟨4, 4⟩]
  let provider : Provider := fun _ _ => some #[⟨2, 2⟩, ⟨3, 3⟩]
  let later : Provider := fun _ _ => some #[⟨3, 3⟩, ⟨3, 0.5⟩, ⟨4, 4⟩]
  let e := BankEntry.start spec (Oscillator.new spec.kind)
  let log : List Stretch := [⟨1, 3⟩, ⟨2, 5⟩]
  have asked : Run ([] ++ [.ensure spec]) _ :=
    .step .start trivial ((Scene.perform_ensure_iff rfl).2 ⟨by unfold Fits; decide, rfl⟩)
  have first : Run (_ ++ [.grow early]) (Scene.single early e []) :=
    .step asked (fun source => ⟨List.nil_prefix,
      (euroHistory_grows List.nil_prefix (by unfold Ordered; decide) source).2⟩) rfl
  have served : (Scene.single early e []).Allows (.refresh provider) := by
    refine Scene.allows_single fun points answer => ?_
    cases answer
    exact ⟨⟨[⟨1, 1⟩], rfl⟩, by unfold Apart; decide, fun s span => by cases span⟩
  have read : Run (_ ++ [.refresh provider]) (Scene.single early (e.readOn provider) [⟨1, 3⟩]) :=
    .step first served (Scene.perform_refresh _ _)
  have late : Run (_ ++ [.grow whole]) (Scene.single whole (e.readOn provider) [⟨1, 3⟩]) :=
    .step read (euroHistory_grows ⟨_, rfl⟩ (by unfold Ordered; decide)) rfl
  have servedLater : (Scene.single whole (e.readOn provider) [⟨1, 3⟩]).Allows (.refresh later) := by
    refine Scene.allows_single fun points answer => ?_
    cases answer
    exact ⟨⟨[⟨1, 1⟩, ⟨2, 2⟩], rfl⟩, by unfold Apart; decide, fun s span => by cases span; decide⟩
  have again : Run (_ ++ [.refresh later])
      (Scene.single whole ((e.readOn provider).readOn later) log) :=
    .step late servedLater (Scene.perform_refresh _ _)
  have run : Run euroEvents (Scene.single whole ((e.readOn provider).readOn later) log) := again
  have watched := List.mem_singleton.2 (Eq.refl ((e.readOn provider).readOn later, log))
  have folded := ((foldsOnce run).2.1 _ _ watched).1
  rw [BankEntry.spec_readOn, BankEntry.spec_readOn] at folded
  exact ⟨_, _, log, run, watched, folded⟩

end Bank

end FxPulse
