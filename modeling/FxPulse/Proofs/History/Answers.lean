import FxPulse.Proofs.History.Retained
import FxPulse.Proofs.History.TickStore

/-!
# `Proofs/History/Answers.lean` — what a store answers

A store answers each quote, with a point or a refusal, and the answers tell what is in it: the points that
have been accepted for an instrument are those among the answers to its quotes (`accepted_eq_filterMap`),
and the latest point is the last of them (`latest_addAll_new`).
-/

set_option autoImplicit false

namespace FxPulse.TickStore

/-- The answer to a quote. -/
def answer (s : TickStore) (t : Tick) : Except Failure Point := (s.add t).map Prod.snd

def answers (s : TickStore) : List Tick → List (Except Failure Point)
  | [] => []
  | t :: rest => s.answer t :: (s.after t).answers rest

theorem length_answers (s : TickStore) (ticks : List Tick) :
    (s.answers ticks).length = ticks.length := by
  induction ticks generalizing s with
  | nil => rfl
  | cons t rest ih => exact congrArg (· + 1) (ih (s.after t))

/-! ## Instruments apart -/

/-- The calls for an instrument, in their order. -/
def callsFor (instrument : String) (calls : List Tick) : List Tick :=
  calls.filter fun t => t.instrument = instrument

/-- The answers to them. -/
def answersFor {α : Type} (instrument : String) (calls : List Tick) (answers : List α) : List α :=
  ((calls.zip answers).filter fun call => call.1.instrument = instrument).map Prod.snd

theorem callsFor_cons (instrument : String) (t : Tick) (calls : List Tick) :
    callsFor instrument (t :: calls)
      = (if t.instrument = instrument then [t] else []) ++ callsFor instrument calls := by
  by_cases same : t.instrument = instrument <;> simp [callsFor, same]

theorem answersFor_cons {α : Type} (instrument : String) (t : Tick) (calls : List Tick) (own : α)
    (answers : List α) :
    answersFor instrument (t :: calls) (own :: answers)
      = (if t.instrument = instrument then [own] else []) ++ answersFor instrument calls answers := by
  by_cases same : t.instrument = instrument <;> simp [answersFor, same]

theorem answersFor_map {α β : Type} (f : α → β) (instrument : String) (calls : List Tick)
    (answers : List α) :
    answersFor instrument calls (answers.map f) = (answersFor instrument calls answers).map f := by
  rw [answersFor, answersFor, List.zip_map_right, List.filter_map, List.map_map, List.map_map]
  rfl

theorem SameOn.eq {s other : TickStore} (same : ∀ i : String, SameOn (· = i) s other) : other = s := by
  have series : other.series = s.series :=
    Std.ExtTreeMap.ext_getElem? fun {i} => (same i).series i (decide_eq_true rfl)
  have retention := (same "").retention
  cases s
  cases other
  cases series
  cases retention
  rfl

/-! ## Entries -/

section Entered

variable (s : TickStore) (instrument : String)

/-- An empty entry is the series that an instrument without one has. -/
theorem seriesOf_entered : (s.entered instrument).seriesOf instrument = s.seriesOf instrument := by
  rw [seriesOf, seriesOf, entered, Std.ExtTreeMap.getD_eq_getD_getElem?,
    Std.ExtTreeMap.getD_eq_getD_getElem?, Std.ExtTreeMap.getElem?_insertIfNew]
  by_cases known : instrument ∈ s.series
  · rw [if_neg (fun fresh => fresh.2 known)]
  · rw [if_pos ⟨Std.ReflOrd.compare_self, known⟩, Std.ExtTreeMap.getElem?_eq_none known]
    rfl

theorem withSeries_entered (series : Series) :
    (s.entered instrument).withSeries instrument series = s.withSeries instrument series := by
  unfold withSeries entered
  congr 1
  ext i found
  rw [getElem?_insert_ite, getElem?_insert_ite]
  split
  · rfl
  · rename_i other
    rw [Std.ExtTreeMap.getElem?_insertIfNew, if_neg fun same => other (Std.compare_eq_iff_eq.1 same.1)]

variable {s instrument}

/-- Writing a series back as it was changes nothing. -/
theorem withSeries_seriesOf (known : instrument ∈ s.series) :
    s.withSeries instrument (s.seriesOf instrument) = s := by
  have own := Std.ExtTreeMap.getElem?_eq_some_getElem known
  unfold withSeries
  obtain ⟨kept, retention⟩ := s
  congr 1
  ext i found
  rw [getElem?_insert_ite]
  split
  · rename_i same
    rw [seriesOf_of_getElem? own, ← same, own]
  · rfl

/-- Only a series that is there refuses a point. -/
theorem mem_of_push_eq_error {p : Point} {r : Regression}
    (refused : (s.seriesOf instrument).push p = .error r) : instrument ∈ s.series := by
  obtain ⟨last, there, -⟩ := Series.push_eq_error_iff.1 refused
  by_contra missing
  rw [seriesOf, Std.ExtTreeMap.getD_eq_fallback missing] at there
  cases there

end Entered

/-! ## What has been accepted -/

/-- The points that were accepted for an instrument, as its answers tell. -/
theorem accepted_eq_filterMap (s : TickStore) (calls : List Tick) (instrument : String) :
    s.accepted calls instrument
      = (answersFor instrument calls (s.answers calls)).filterMap Except.toOption := by
  induction calls generalizing s with
  | nil => rfl
  | cons t rest ih =>
    rw [accepted, answers, answersFor_cons, List.filterMap_append, ih, brought, answer]
    congr 1
    by_cases own : t.instrument = instrument
    · rw [if_pos own]
      cases s.add t with
      | error cause => rfl
      | ok added => exact if_pos own
    · rw [if_neg own]
      cases s.add t with
      | error cause => rfl
      | ok added => exact if_neg own

/-- Each series keeps what its retention leaves of what has come for it. -/
theorem retains_after {s : TickStore} {came : String → List Point}
    (retains : ∀ i, (s.seriesOf i).Retains (came i)) (t : Tick) (instrument : String) :
    ((s.after t).seriesOf instrument).Retains (came instrument ++ s.brought t instrument) := by
  unfold after brought
  cases added : s.add t with
  | error cause =>
    rw [List.append_nil]
    exact retains instrument
  | ok answer =>
    obtain ⟨grown, point⟩ := answer
    obtain ⟨series, pushed, rfl, -⟩ := add_eq_ok added
    dsimp only
    rw [seriesOf_insert]
    by_cases same : t.instrument = instrument
    · rw [if_pos same, if_pos same, ← same]
      exact ((retains _).push pushed).1
    · rw [if_neg same, if_neg same, List.append_nil]
      exact retains instrument

theorem retains_addAll {s : TickStore} {came : String → List Point}
    (retains : ∀ i, (s.seriesOf i).Retains (came i)) (calls : List Tick) (instrument : String) :
    ((s.addAll calls).seriesOf instrument).Retains
      (came instrument ++ s.accepted calls instrument) := by
  induction calls generalizing s came with
  | nil =>
    rw [accepted, List.append_nil]
    exact retains instrument
  | cons t rest ih =>
    have later := ih (retains_after retains t)
    rw [List.append_assoc] at later
    exact later

theorem latest_addAll_new {retention : Int} (forward : 0 ≤ retention) (calls : List Tick)
    {instrument : String} {p : Point}
    (last : ((new retention).accepted calls instrument).getLast? = some p) :
    ((new retention).addAll calls).latest instrument = .ok p := by
  have retains := retains_addAll (s := new retention)
    (fun _ => Series.retains_new forward seriesCapacity) calls instrument
  rw [List.nil_append] at retains
  have there : instrument ∈ ((new retention).addAll calls).series := by
    rw [mem_series_addAll_iff]
    refine .inr fun nothing => ?_
    rw [nothing] at last
    cases last
  have shown := retains.latest?_eq.trans last
  rw [latest, find, read?_of_latest? there shown, Option.bind_some, shown]

end FxPulse.TickStore
