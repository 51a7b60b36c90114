import FxPulse.History.TickStore
import FxPulse.Proofs.History.Series

/-!
# `Proofs/History/TickStore.lean` — what a store has taken in

A store keeps its instruments apart: a tick that is accepted is one more point for its own instrument,
and nothing for the others. So what has been accepted for an instrument is a list that only grows, and

> the series of an instrument holds what retention leaves of the points accepted for it
> (`Holds.addAll`),

as long as no series has reached its capacity.
-/

set_option autoImplicit false

namespace FxPulse.TickStore

/-- A series that holds something is what is read under its instrument. -/
theorem read?_insert_self (kept : Std.ExtTreeMap String Series) (retention : Int)
    (instrument : String) {series : Series} (some_point : 0 < series.size) :
    read? ⟨kept.insert instrument series, retention⟩ instrument = some series := by
  have held : series.isEmpty = false := Array.isEmpty_eq_false_iff.2 (Array.size_pos_iff.1 some_point)
  rw [read?, Std.ExtTreeMap.getElem?_insert_self, Option.filter_some, held]
  rfl

theorem mem_instruments_iff {s : TickStore} {instrument : String} :
    instrument ∈ s.instruments ↔ instrument ∈ s.series := Std.ExtTreeMap.mem_keys

/-- A tick that is accepted is pushed to the series of its instrument. -/
theorem add_eq_ok {s grown : TickStore} {t : Tick} {point : Point}
    (h : s.add t = .ok (grown, point)) :
    ∃ series, (s.seriesOf t.instrument).push point = .ok series ∧
      grown = { s with series := s.series.insert t.instrument series } ∧ point = ⟨t.ts, t.mid⟩ := by
  unfold add at h
  by_cases prices : (isPrice t.bid && isPrice t.ask) = true
  · rw [if_pos prices] at h
    dsimp only at h
    cases pushed : (s.seriesOf t.instrument).push ⟨t.ts, t.mid⟩ with
    | error r =>
      rw [pushed] at h
      cases h
    | ok series =>
      rw [pushed] at h
      cases h
      exact ⟨series, pushed, rfl, rfl⟩
  · rw [if_neg prices] at h
    cases h

/-! ## Many ticks -/

/-- The store after a tick. One that is refused leaves it as it is. -/
def after (s : TickStore) (t : Tick) : TickStore :=
  match s.add t with
  | .ok (grown, _) => grown
  | .error _ => s

/-- What a tick brings for an instrument. -/
def brought (s : TickStore) (t : Tick) (instrument : String) : List Point :=
  match s.add t with
  | .ok (_, point) => if t.instrument = instrument then [point] else []
  | .error _ => []

def addAll (s : TickStore) (ticks : List Tick) : TickStore := ticks.foldl after s

/-- The points of an instrument that are accepted of some ticks, in the order in which they come. -/
def accepted (s : TickStore) : List Tick → String → List Point
  | [], _ => []
  | t :: rest, instrument => s.brought t instrument ++ (s.after t).accepted rest instrument

theorem retention_after (s : TickStore) (t : Tick) : (s.after t).retention = s.retention := by
  unfold after
  cases added : s.add t with
  | error cause => rfl
  | ok answer =>
    obtain ⟨grown, point⟩ := answer
    obtain ⟨series, -, rfl, -⟩ := add_eq_ok added
    rfl

theorem retention_addAll (s : TickStore) (ticks : List Tick) :
    (s.addAll ticks).retention = s.retention := by
  induction ticks generalizing s with
  | nil => rfl
  | cons t rest ih => exact (ih (s.after t)).trans (retention_after s t)

theorem addAll_append (s : TickStore) (ticks more : List Tick) :
    s.addAll (ticks ++ more) = (s.addAll ticks).addAll more := List.foldl_append

theorem accepted_append (s : TickStore) (ticks more : List Tick) (instrument : String) :
    s.accepted (ticks ++ more) instrument
      = s.accepted ticks instrument ++ (s.addAll ticks).accepted more instrument := by
  induction ticks generalizing s with
  | nil => rfl
  | cons t rest ih =>
    rw [List.cons_append, accepted, accepted, ih, List.append_assoc]
    rfl

theorem mem_series_after_iff (s : TickStore) (t : Tick) (instrument : String) :
    instrument ∈ (s.after t).series ↔ instrument ∈ s.series ∨ s.brought t instrument ≠ [] := by
  unfold after brought
  cases added : s.add t with
  | error cause => simp
  | ok answer =>
    obtain ⟨grown, point⟩ := answer
    obtain ⟨series, -, rfl, -⟩ := add_eq_ok added
    rw [Std.ExtTreeMap.mem_insert, Std.compare_eq_iff_eq, or_comm]
    by_cases same : t.instrument = instrument <;> simp [same]

/-- The instruments with an entry are those that had one and those for which something is accepted. -/
theorem mem_series_addAll_iff (s : TickStore) (ticks : List Tick) (instrument : String) :
    instrument ∈ (s.addAll ticks).series
      ↔ instrument ∈ s.series ∨ s.accepted ticks instrument ≠ [] := by
  induction ticks generalizing s with
  | nil => simp [addAll, accepted]
  | cons t rest ih =>
    show instrument ∈ ((s.after t).addAll rest).series ↔ _
    rw [ih, mem_series_after_iff, accepted, ne_eq, ne_eq, ne_eq, List.append_eq_nil_iff, not_and_or,
      or_assoc]

/-- An instrument that is known stays known. -/
theorem mem_series_addAll (s : TickStore) (ticks : List Tick) {instrument : String}
    (known : instrument ∈ s.series) : instrument ∈ (s.addAll ticks).series :=
  (s.mem_series_addAll_iff ticks instrument).2 (.inl known)

/-! ## What the series hold -/

/-- Each instrument's series holds what retention leaves of what came for it, and instruments for which
nothing came have none. -/
structure Holds (s : TickStore) (came : String → List Point) : Prop where
  holds : ∀ instrument, (s.seriesOf instrument).Holds (came instrument)
  retention : ∀ instrument, (s.seriesOf instrument).retention = s.retention
  capacity : ∀ instrument, (s.seriesOf instrument).capacity = seriesCapacity
  listed : ∀ instrument, instrument ∈ s.series ↔ came instrument ≠ []

theorem holds_new (retention : Int) : (new retention).Holds fun _ => [] where
  holds _ := Series.holds_new _ _
  retention _ := rfl
  capacity _ := rfl
  listed instrument := by simp [new]

/-- No series has reached its capacity. -/
def HasRoom (s : TickStore) : Prop := ∀ instrument, (s.seriesOf instrument).size < seriesCapacity

theorem seriesOf_insert (s : TickStore) (own : String) (series : Series) (instrument : String) :
    seriesOf { s with series := s.series.insert own series } instrument
      = if own = instrument then series else s.seriesOf instrument := by
  rw [seriesOf, Std.ExtTreeMap.getD_insert]
  by_cases same : own = instrument
  · rw [if_pos same, if_pos (Std.compare_eq_iff_eq.2 same)]
  · rw [if_neg same, if_neg (mt Std.compare_eq_iff_eq.1 same)]
    rfl

theorem Holds.after {s : TickStore} {came : String → List Point} (holds : s.Holds came)
    (forward : 0 ≤ s.retention) (room : s.HasRoom) (t : Tick) :
    (s.after t).Holds fun i => came i ++ s.brought t i := by
  unfold TickStore.after brought
  cases added : s.add t with
  | error cause => simpa using holds
  | ok answer =>
    obtain ⟨grown, point⟩ := answer
    obtain ⟨series, pushed, rfl, rfl⟩ := add_eq_ok added
    have space : (s.seriesOf t.instrument).size < (s.seriesOf t.instrument).capacity := by
      rw [holds.capacity]
      exact room _
    have forward' : 0 ≤ (s.seriesOf t.instrument).retention := by rwa [holds.retention]
    obtain ⟨own, retention, capacity⟩ := (holds.holds t.instrument).push forward' space pushed
    constructor <;> intro i
    · rw [seriesOf_insert]
      by_cases same : t.instrument = i
      · simpa [same] using own
      · simpa [same] using holds.holds i
    · rw [seriesOf_insert]
      split
      · exact retention.trans (holds.retention _)
      · exact holds.retention i
    · rw [seriesOf_insert]
      split
      · exact capacity.trans (holds.capacity _)
      · exact holds.capacity i
    · rw [Std.ExtTreeMap.mem_insert, Std.compare_eq_iff_eq, holds.listed]
      by_cases same : t.instrument = i <;> simp [same]

/-- What a run of ticks leaves, when there is room all along. -/
theorem Holds.addAll {s : TickStore} {came : String → List Point} (holds : s.Holds came)
    (forward : 0 ≤ s.retention) {ticks : List Tick}
    (room : ∀ early late, ticks = early ++ late → (s.addAll early).HasRoom) :
    (s.addAll ticks).Holds fun i => came i ++ s.accepted ticks i := by
  induction ticks generalizing s came with
  | nil => simpa [TickStore.addAll, accepted] using holds
  | cons t rest ih =>
    have next := holds.after forward (room [] (t :: rest) rfl) t
    have later := ih next (by rwa [retention_after]) fun early late h =>
      room (t :: early) late (congrArg (t :: ·) h)
    simp only [List.append_assoc] at later
    exact later

theorem size_seriesOf_after_le (s : TickStore) (t : Tick) (instrument : String) :
    ((s.after t).seriesOf instrument).size ≤ (s.seriesOf instrument).size + 1 := by
  unfold after
  cases added : s.add t with
  | error cause => exact Nat.le_succ _
  | ok answer =>
    obtain ⟨grown, point⟩ := answer
    obtain ⟨series, pushed, rfl, -⟩ := add_eq_ok added
    rw [seriesOf_insert]
    split
    · rename_i own
      have shorter := (Series.push_suffix pushed).length_le
      rw [List.length_append, Array.length_toList, Array.length_toList, own] at shorter
      exact shorter
    · exact Nat.le_succ _

theorem size_seriesOf_addAll_le (s : TickStore) (ticks : List Tick) (instrument : String) :
    ((s.addAll ticks).seriesOf instrument).size ≤ (s.seriesOf instrument).size + ticks.length := by
  induction ticks generalizing s with
  | nil => exact Nat.le_refl _
  | cons t rest ih =>
    have first := size_seriesOf_after_le s t instrument
    have later := ih (s.after t)
    rw [List.length_cons]
    exact Nat.le_trans later (by omega)

theorem exists_of_mem_accepted {s : TickStore} {ticks : List Tick} {instrument : String} {p : Point}
    (h : p ∈ s.accepted ticks instrument) : ∃ t ∈ ticks, p.ts = t.ts := by
  induction ticks generalizing s with
  | nil => cases h
  | cons t rest ih =>
    rw [accepted, List.mem_append] at h
    rcases h with first | later
    · refine ⟨t, List.mem_cons_self, ?_⟩
      unfold brought at first
      split at first
      · rename_i grown point added
        obtain ⟨-, -, -, rfl⟩ := add_eq_ok added
        split at first
        · rw [List.mem_singleton.1 first]
        · cases first
      · cases first
    · obtain ⟨u, hu, same⟩ := ih later
      exact ⟨u, List.mem_cons_of_mem _ hu, same⟩

theorem seriesOf_of_getElem? {s : TickStore} {instrument : String} {series : Series}
    (found : s.series[instrument]? = some series) : s.seriesOf instrument = series := by
  rw [seriesOf, Std.ExtTreeMap.getD_eq_getD_getElem?, found, Option.getD_some]

/-- A series that shows a latest point is read. -/
theorem read?_of_latest? {s : TickStore} {instrument : String} {p : Point}
    (there : instrument ∈ s.series) (last : (s.seriesOf instrument).latest? = some p) :
    s.read? instrument = some (s.seriesOf instrument) := by
  have found := Std.ExtTreeMap.getElem?_eq_some_getElem there
  have some_point : (s.seriesOf instrument).isEmpty = false := by
    rw [Series.isEmpty, Array.isEmpty_eq_false_iff]
    intro empty
    rw [Series.latest?, empty] at last
    cases last
  rw [seriesOf_of_getElem? found] at some_point ⊢
  rw [read?, found, Option.filter_some, some_point]
  rfl

/-- A series with points is read, and any other is not there. -/
theorem Holds.read?_eq {s : TickStore} {came : String → List Point} (holds : s.Holds came)
    (forward : 0 ≤ s.retention) (instrument : String) :
    s.read? instrument = if came instrument = [] then none else some (s.seriesOf instrument) := by
  by_cases nothing : came instrument = []
  · have missing : instrument ∉ s.series := mt (holds.listed instrument).1 (by simpa using nothing)
    rw [if_pos nothing, TickStore.read?, Std.ExtTreeMap.getElem?_eq_none missing, Option.filter_none]
  · have last := (holds.holds instrument).latest? (by rwa [holds.retention])
    rw [List.getLast?_eq_some_getLast nothing] at last
    rw [if_neg nothing, read?_of_latest? ((holds.listed instrument).2 nothing) last]

/-! ## Order of time -/

theorem add_allOrdered {s grown : TickStore} {t : Tick} {point : Point}
    (h : s.add t = .ok (grown, point)) (sorted : Series.AllOrdered s.series) :
    Series.AllOrdered grown.series := by
  obtain ⟨series, pushed, rfl, -⟩ := add_eq_ok h
  exact sorted.insert (Series.push_ordered pushed (sorted.getD _ _ _))

theorem read?_ordered {s : TickStore} (sorted : Series.AllOrdered s.series) {instrument : String}
    {series : Series} (h : s.read? instrument = some series) : Point.Ordered series.points.toList :=
  sorted _ _ (Option.filter_eq_some_iff.1 h).1

theorem addAll_allOrdered {s : TickStore} (sorted : Series.AllOrdered s.series) (ticks : List Tick) :
    Series.AllOrdered (s.addAll ticks).series := by
  induction ticks generalizing s with
  | nil => exact sorted
  | cons t rest ih =>
    apply ih
    unfold after
    cases added : s.add t with
    | error cause => exact sorted
    | ok answer => exact add_allOrdered added sorted

/-! ## Two stores side by side -/

/-- Two stores have the same series for some instruments. -/
structure SameOn (some_of : String → Bool) (s other : TickStore) : Prop where
  retention : other.retention = s.retention
  series : ∀ i, some_of i = true → other.series[i]? = s.series[i]?

namespace SameOn

variable {p : String → Bool} {s other : TickStore}

theorem refl (s : TickStore) : SameOn p s s := ⟨rfl, fun _ _ => rfl⟩

theorem symm (h : SameOn p s other) : SameOn p other s :=
  ⟨h.retention.symm, fun i hi => (h.series i hi).symm⟩

theorem trans {third : TickStore} (h : SameOn p s other) (more : SameOn p other third) :
    SameOn p s third :=
  ⟨more.retention.trans h.retention, fun i hi => (more.series i hi).trans (h.series i hi)⟩

theorem read? (h : SameOn p s other) {i : String} (hi : p i = true) : other.read? i = s.read? i := by
  rw [TickStore.read?, TickStore.read?, h.series i hi]

theorem latest (h : SameOn p s other) {i : String} (hi : p i = true) : other.latest i = s.latest i := by
  rw [TickStore.latest, TickStore.latest, TickStore.find, TickStore.find, h.read? hi]

theorem seriesOf (h : SameOn p s other) {i : String} (hi : p i = true) :
    other.seriesOf i = s.seriesOf i := by
  rw [TickStore.seriesOf, TickStore.seriesOf, Std.ExtTreeMap.getD_eq_getD_getElem?,
    Std.ExtTreeMap.getD_eq_getD_getElem?, h.series i hi, h.retention]

/-- A tick of another instrument makes no difference. -/
theorem after_of_not (s : TickStore) {t : Tick} (apart : p t.instrument = false) :
    SameOn p s (s.after t) := by
  unfold TickStore.after
  cases added : s.add t with
  | error cause => exact refl s
  | ok answer =>
    obtain ⟨grown, point⟩ := answer
    obtain ⟨series, -, rfl, -⟩ := add_eq_ok added
    refine ⟨rfl, fun i hi => ?_⟩
    have other : t.instrument ≠ i := by
      rintro rfl
      rw [hi] at apart
      cases apart
    rw [getElem?_insert_ite, if_neg other]

/-- The same tick keeps the same series the same. -/
theorem after (h : SameOn p s other) {t : Tick} (ht : p t.instrument = true) :
    SameOn p (s.after t) (other.after t) := by
  unfold TickStore.after TickStore.add
  rw [h.seriesOf ht]
  by_cases priced : (isPrice t.bid && isPrice t.ask) = true
  · rw [if_pos priced, if_pos priced]
    dsimp only
    cases (s.seriesOf t.instrument).push ⟨t.ts, t.mid⟩ with
    | error regressed => exact h
    | ok grown =>
      refine ⟨h.retention, fun i hi => ?_⟩
      dsimp only
      rw [Std.ExtTreeMap.getElem?_insert, Std.ExtTreeMap.getElem?_insert, h.series i hi]
  · rw [if_neg priced, if_neg priced]
    exact h

end SameOn

end FxPulse.TickStore
