import FxPulse.Proofs.Checked.Series
import FxPulse.Proofs.History.Answers

/-!
# `Proofs/Checked/Stores.lean` — quotes taken in where the store stands

`TickStore.add` gives a store or a refusal, so that a refusal leaves no trace is nothing to prove of it. A
store that is shared is changed where it stands, in several steps, and a refusal can come between any two of
them. The one refusal behind a step is that of a time that goes back, and that takes a point to go back
from: so the entry was there before, and the store is as it was (`run_offer_refused`).

A call touches the series of its own instrument and no other, whatever comes of it, so instruments are told
apart call by call (`offerAll_alone`). That a point which was accepted is also kept is another thing: it
takes a word for the time from which points are kept. Where there is one a call comes to the same as `add`
(`run_offer`).
-/

set_option autoImplicit false

namespace FxPulse.Checked

open FxPulse.Number
open FxPulse.TickStore (SameOn isPrice callsFor answersFor callsFor_cons answersFor_cons)

section Steps

variable {σ ε α : Type} (s : σ)

theorem run_get_bind (next : σ → ExceptT ε (StateM σ) α) :
    (get >>= next).run.run s = (next s).run.run s := rfl

theorem run_modify_bind (change : σ → σ) (next : PUnit → ExceptT ε (StateM σ) α) :
    (modify change >>= next).run.run s = (next ⟨⟩).run.run (change s) := rfl

end Steps

variable {b : Build}

/-! ## One call -/

theorem failure_ne_of_prune {s : Series} {now : Int} {halt : Halt} (broken : prune b s now = .error halt)
    (cause : Failure) : halt ≠ .failure cause := by
  rintro rfl
  rcases prune_ends s now _ broken with ⟨other, same, -⟩ | ⟨-, n, broke⟩
  · unfold prune signed at broken
    cases word : b.signed? (now - s.retention) with
    | none =>
      rw [word] at broken
      cases broken
    | some cutoff =>
      rw [word] at broken
      cases broken
  · cases broke

/-- What a push where a series stands does: it refuses and leaves the series alone, or it goes on to
prune. -/
theorem run_pushInPlace (b : Build) (instrument : String) (s : Series) (p : Point) :
    (∃ last, s.latest? = some last ∧ (pushInPlace b instrument p).run.run s
      = (.error (.failure (.invalidInput instrument (.timeRegressed p.ts last.ts))), s) ∧
        s.push p = .error ⟨last.ts, p.ts⟩) ∨
    (pushInPlace b instrument p).run.run s
      = (match prune b { s with points := s.points.push p } p.ts with
        | .ok pruned => (.ok (), pruned)
        | .error halt => (.error halt, { s with points := s.points.push p })) ∧
      s.push p = .ok (Series.prune { s with points := s.points.push p } p.ts) := by
  have pushed : (do
      modify fun s => { s with points := s.points.push p }
      match prune b (← get) p.ts with
      | .ok pruned => set pruned
      | .error halt => throw halt : ExceptT Halt (StateM Series) Unit).run.run s
        = (match prune b { s with points := s.points.push p } p.ts with
          | .ok pruned => (.ok (), pruned)
          | .error halt => (.error halt, { s with points := s.points.push p })) := by
    rw [run_modify_bind, run_get_bind]
    cases prune b { s with points := s.points.push p } p.ts <;> rfl
  unfold pushInPlace Series.push
  rw [run_get_bind]
  cases held : s.latest? with
  | none => exact .inr ⟨pushed, rfl⟩
  | some last =>
    dsimp only
    by_cases back : p.ts < last.ts
    · rw [if_pos back, if_pos back]
      exact .inl ⟨last, rfl, rfl, rfl⟩
    · rw [if_neg back, if_neg back]
      exact .inr ⟨pushed, rfl⟩

/-- What comes of a quote with prices at the series of its instrument. -/
def quoted (b : Build) (t : Tick) (s : Series) : Checked Point × Series :=
  match (pushInPlace b t.instrument ⟨t.ts, t.mid⟩).run.run s with
  | (.ok (), grown) => (.ok ⟨t.ts, t.mid⟩, grown)
  | (.error halt, grown) => (.error halt, grown)

theorem run_offer_priced {t : Tick} (priced : (isPrice t.bid && isPrice t.ask) = true) (b : Build)
    (s : TickStore) :
    (offer b t).run.run s = ((quoted b t (s.seriesOf t.instrument)).1,
      s.withSeries t.instrument (quoted b t (s.seriesOf t.instrument)).2) := by
  unfold offer quoted
  rw [priced, if_neg (by decide), run_modify_bind, run_get_bind, TickStore.seriesOf_entered]
  cases pushed : (pushInPlace b t.instrument ⟨t.ts, t.mid⟩).run.run (s.seriesOf t.instrument) with
  | mk answer grown =>
    cases answer with
    | ok done => exact congrArg _ (s.withSeries_entered t.instrument grown)
    | error halt => exact congrArg _ (s.withSeries_entered t.instrument grown)

theorem run_offer_unpriced {t : Tick} (unpriced : (isPrice t.bid && isPrice t.ask) = false) (b : Build)
    (s : TickStore) :
    (offer b t).run.run s
      = (.error (.failure (.invalidInput t.instrument (.badPrices t.bid t.ask))), s) := by
  unfold offer
  rw [unpriced]
  rfl

/-- **A refused call has left nothing behind**, whatever the program was built to do. -/
theorem run_offer_refused {s : TickStore} {t : Tick} {cause : Failure}
    (refused : ((offer b t).run.run s).1 = .error (.failure cause)) :
    ((offer b t).run.run s).2 = s := by
  by_cases priced : (isPrice t.bid && isPrice t.ask) = true
  · rw [run_offer_priced priced] at refused ⊢
    dsimp only at refused ⊢
    unfold quoted at refused ⊢
    rcases run_pushInPlace b t.instrument (s.seriesOf t.instrument) ⟨t.ts, t.mid⟩ with
      ⟨last, there, kept, pushed⟩ | ⟨changed, -⟩
    · rw [kept]
      exact TickStore.withSeries_seriesOf (TickStore.mem_of_push_eq_error pushed)
    · rw [changed] at refused
      cases pruned : prune b { s.seriesOf t.instrument with
          points := (s.seriesOf t.instrument).points.push ⟨t.ts, t.mid⟩ } t.ts with
      | ok grown =>
        rw [pruned] at refused
        cases refused
      | error halt =>
        rw [pruned] at refused
        exact absurd (Except.error.inj refused) (failure_ne_of_prune pruned cause)
  · rw [run_offer_unpriced (Bool.not_eq_true _ ▸ priced)]

/-- **A call comes to the same as `add`** where a word holds the time from which points are kept. -/
theorem run_offer {s : TickStore} {t : Tick}
    (fits : fitsSigned (t.ts - (s.seriesOf t.instrument).retention) = true) (b : Build) :
    (offer b t).run.run s = ((s.answer t).mapError .failure, s.after t) := by
  unfold TickStore.answer TickStore.after TickStore.add
  by_cases priced : (isPrice t.bid && isPrice t.ask) = true
  · rw [run_offer_priced priced, if_pos priced]
    dsimp only
    unfold quoted
    rcases run_pushInPlace b t.instrument (s.seriesOf t.instrument) ⟨t.ts, t.mid⟩ with
      ⟨last, there, kept, pushed⟩ | ⟨changed, pushed⟩
    · rw [kept, pushed]
      exact congrArg _ (TickStore.withSeries_seriesOf (TickStore.mem_of_push_eq_error pushed))
    · have pruned := prune_eq (s := { s.seriesOf t.instrument with
        points := (s.seriesOf t.instrument).points.push ⟨t.ts, t.mid⟩ }) fits b
      rw [changed, pushed, pruned]
      rfl
  · rw [run_offer_unpriced (Bool.not_eq_true _ ▸ priced), if_neg priced]
    rfl

/-- **A quote is taken in or refused**, and all that can come between is the time from which points are
kept. -/
theorem offer_ends (s : TickStore) (t : Tick) : Ends b ((offer b t).run.run s).1 := by
  by_cases priced : (isPrice t.bid && isPrice t.ask) = true
  · rw [run_offer_priced priced]
    dsimp only
    unfold quoted
    rcases run_pushInPlace b t.instrument (s.seriesOf t.instrument) ⟨t.ts, t.mid⟩ with
      ⟨last, -, kept, -⟩ | ⟨changed, -⟩
    · rw [kept]
      exact .error nofun
    · rw [changed]
      have pruned := prune_ends (b := b) { s.seriesOf t.instrument with
        points := (s.seriesOf t.instrument).points.push ⟨t.ts, t.mid⟩ } t.ts
      revert pruned
      cases prune b { s.seriesOf t.instrument with
          points := (s.seriesOf t.instrument).points.push ⟨t.ts, t.mid⟩ } t.ts with
      | ok grown => exact fun _ => .ok _
      | error halt =>
        rintro ends _ ⟨⟩
        exact ends halt rfl
  · rw [run_offer_unpriced (Bool.not_eq_true _ ▸ priced)]
    exact .error nofun

/-! ## Many calls -/

theorem run_offerAll_cons (b : Build) (t : Tick) (rest : List Tick) (s : TickStore) :
    (offerAll b (t :: rest)).run s =
      (((offer b t).run.run s).1 :: ((offerAll b rest).run ((offer b t).run.run s).2).1,
        ((offerAll b rest).run ((offer b t).run.run s).2).2) := by
  unfold offerAll
  rw [List.mapM_cons, StateT.run_bind]
  exact StateT.run_bind _ _ ((offer b t).run.run s).2

section SameOn

variable {p : String → Bool} {s other : TickStore} {t : Tick}

theorem sameOn_withSeries (h : SameOn p s other) (instrument : String) (series : Series) :
    SameOn p (s.withSeries instrument series) (other.withSeries instrument series) := by
  refine ⟨h.retention, fun i hi => ?_⟩
  rw [TickStore.withSeries, TickStore.withSeries, getElem?_insert_ite, getElem?_insert_ite,
    h.series i hi]

/-- A call of the same instrument has the same answer and leaves the same series. -/
theorem sameOn_offer (h : SameOn p s other) (own : p t.instrument = true) :
    ((offer b t).run.run other).1 = ((offer b t).run.run s).1 ∧
      SameOn p ((offer b t).run.run s).2 ((offer b t).run.run other).2 := by
  by_cases priced : (isPrice t.bid && isPrice t.ask) = true
  · rw [run_offer_priced priced, run_offer_priced priced, h.seriesOf own]
    exact ⟨rfl, sameOn_withSeries h _ _⟩
  · have unpriced := Bool.not_eq_true _ ▸ priced
    rw [run_offer_unpriced unpriced, run_offer_unpriced unpriced]
    exact ⟨rfl, h⟩

/-- A call of another instrument makes no difference. -/
theorem sameOn_offer_of_not (s : TickStore) (apart : p t.instrument = false) :
    SameOn p s ((offer b t).run.run s).2 := by
  by_cases priced : (isPrice t.bid && isPrice t.ask) = true
  · rw [run_offer_priced priced]
    refine ⟨rfl, fun i hi => ?_⟩
    have other : t.instrument ≠ i := by
      rintro rfl
      rw [hi] at apart
      cases apart
    rw [TickStore.withSeries, getElem?_insert_ite, if_neg other]
  · rw [run_offer_unpriced (Bool.not_eq_true _ ▸ priced)]
    exact .refl s

end SameOn

/-- **The calls of an instrument alone** leave its series, and have the answers, that they do among
others. -/
theorem offerAll_alone {instrument : String} {s other : TickStore}
    (h : SameOn (· = instrument) s other) (calls : List Tick) :
    SameOn (· = instrument) ((offerAll b calls).run s).2
        ((offerAll b (callsFor instrument calls)).run other).2 ∧
      answersFor instrument calls ((offerAll b calls).run s).1
        = ((offerAll b (callsFor instrument calls)).run other).1 := by
  induction calls generalizing s other with
  | nil => exact ⟨h, rfl⟩
  | cons t rest ih =>
    rw [run_offerAll_cons, answersFor_cons, callsFor_cons]
    by_cases own : t.instrument = instrument
    · obtain ⟨answer, next⟩ := sameOn_offer (b := b) h (decide_eq_true own)
      obtain ⟨series, later⟩ := ih next
      rw [if_pos own, if_pos own, List.singleton_append, run_offerAll_cons, later, answer]
      exact ⟨series, rfl⟩
    · have apart : SameOn (· = instrument) s ((offer b t).run.run s).2 :=
        sameOn_offer_of_not s (decide_eq_false own)
      obtain ⟨series, later⟩ := ih (apart.symm.trans h)
      rw [if_neg own, if_neg own, later]
      exact ⟨series, rfl⟩

/-- All series of a store are kept for as long as the store says. -/
def Uniform (s : TickStore) : Prop := ∀ instrument, (s.seriesOf instrument).retention = s.retention

theorem uniform_new (retention : Int) : Uniform (TickStore.new retention) := fun instrument =>
  (TickStore.holds_new retention).retention instrument

theorem Uniform.after {s : TickStore} (uniform : Uniform s) (t : Tick) : Uniform (s.after t) := by
  intro instrument
  rw [TickStore.retention_after]
  unfold TickStore.after
  cases added : s.add t with
  | error cause => exact uniform instrument
  | ok answer =>
    obtain ⟨grown, point⟩ := answer
    obtain ⟨series, pushed, rfl, -⟩ := TickStore.add_eq_ok added
    dsimp only
    rw [TickStore.seriesOf_insert]
    split
    · exact (retention_push pushed).trans (uniform _)
    · exact uniform instrument

/-- **All calls**, where words hold the times from which points are kept. -/
theorem run_offerAll {s : TickStore} (uniform : Uniform s) {calls : List Tick}
    (fits : ∀ t ∈ calls, fitsSigned (t.ts - s.retention) = true) (b : Build) :
    (offerAll b calls).run s
      = ((s.answers calls).map (Except.mapError .failure), s.addAll calls) := by
  induction calls generalizing s with
  | nil => rfl
  | cons t rest ih =>
    obtain ⟨first, later⟩ := List.forall_mem_cons.1 fits
    rw [run_offerAll_cons, run_offer (by rwa [uniform])]
    dsimp only
    rw [ih (uniform.after t) (by simpa only [TickStore.retention_after] using later)]
    rfl

/-! ### Of a new store -/

section New

variable {retention : Int} {calls : List Tick}
  (fits : ∀ t ∈ calls, fitsSigned (t.ts - retention) = true) (b : Build)
include fits

theorem run_offerAll_new : (offerAll b calls).run (TickStore.new retention)
    = (((TickStore.new retention).answers calls).map (Except.mapError .failure),
      (TickStore.new retention).addAll calls) :=
  run_offerAll (uniform_new retention) fits b

/-- Nothing breaks off. -/
theorem ne_breach_of_mem_offerAll {answer : Checked Point}
    (mem : answer ∈ ((offerAll b calls).run (TickStore.new retention)).1) (breach : Breach) :
    answer ≠ .error (.breach breach) := by
  rw [run_offerAll_new fits] at mem
  obtain ⟨own, -, rfl⟩ := List.mem_map.1 mem
  cases own <;> exact nofun

/-- The points among the answers to an instrument's quotes are those accepted for it. -/
theorem points_offerAll (instrument : String) :
    (answersFor instrument calls ((offerAll b calls).run (TickStore.new retention)).1).filterMap
        Except.toOption
      = (TickStore.new retention).accepted calls instrument := by
  rw [run_offerAll_new fits, TickStore.answersFor_map, TickStore.accepted_eq_filterMap,
    List.filterMap_map]
  apply List.filterMap_congr
  intro answer _
  cases answer <;> rfl

theorem mem_instruments_offerAll_iff {instrument : String} :
    instrument ∈ ((offerAll b calls).run (TickStore.new retention)).2.instruments
      ↔ (TickStore.new retention).accepted calls instrument ≠ [] := by
  rw [run_offerAll_new fits, TickStore.mem_instruments_iff, TickStore.mem_series_addAll_iff]
  exact or_iff_right Std.ExtTreeMap.not_mem_empty

/-- The latest point of an instrument is the last that was accepted for it. -/
theorem latest_offerAll (forward : 0 ≤ retention) {instrument : String}
    (known : (TickStore.new retention).accepted calls instrument ≠ []) :
    ∃ p, ((TickStore.new retention).accepted calls instrument).getLast? = some p ∧
      ((offerAll b calls).run (TickStore.new retention)).2.latest instrument = .ok p := by
  have last := List.getLast?_eq_some_getLast known
  rw [run_offerAll_new fits]
  exact ⟨_, last, TickStore.latest_addAll_new forward calls last⟩

end New

/-! ## Instruments apart -/

/-- **Instruments do not meet in a store, and a refused quote leaves nothing behind.** A refused quote
leaves the whole store as it was. Whatever quotes a new store takes in, in whatever order, each instrument
has the series, and its quotes the answers, that they have without the quotes of others, so that quotes
which come mixed in another way leave the same store and have the same answers. Where a word holds the time
from which points are kept at each quote, no call breaks off, the instruments listed are those with an
accepted quote, and unless retention is negative the latest point of each is the last one that was accepted
for it. -/
theorem offerAll_apart (b : Build) (retention : Int) (calls : List Tick) :
    let given (quotes : List Tick) := ((offerAll b quotes).run (TickStore.new retention)).1
    let left (quotes : List Tick) := ((offerAll b quotes).run (TickStore.new retention)).2
    (∀ (s : TickStore) t cause, ((offer b t).run.run s).1 = .error (.failure cause) →
      ((offer b t).run.run s).2 = s) ∧
    (∀ instrument,
      (left calls).series[instrument]? = (left (callsFor instrument calls)).series[instrument]? ∧
        answersFor instrument calls (given calls) = given (callsFor instrument calls)) ∧
    (∀ mixed, (∀ instrument, callsFor instrument mixed = callsFor instrument calls) →
      left mixed = left calls ∧ ∀ instrument,
        answersFor instrument mixed (given mixed) = answersFor instrument calls (given calls)) ∧
    ((∀ t ∈ calls, fitsSigned (t.ts - retention) = true) →
      (∀ answer ∈ given calls, ∀ breach, answer ≠ .error (.breach breach)) ∧
      (∀ instrument, instrument ∈ (left calls).instruments
        ↔ ∃ p, .ok p ∈ answersFor instrument calls (given calls)) ∧
      (0 ≤ retention → ∀ instrument ∈ (left calls).instruments, ∃ p,
        ((answersFor instrument calls (given calls)).filterMap Except.toOption).getLast? = some p ∧
          (left calls).latest instrument = .ok p)) := by
  intro given left
  have alone (instrument : String) (quotes : List Tick) :=
    offerAll_alone (b := b) (.refl (p := (· = instrument)) (TickStore.new retention)) quotes
  refine ⟨fun _ _ _ => run_offer_refused, ?_, ?_, ?_⟩
  · intro instrument
    obtain ⟨series, same⟩ := alone instrument calls
    exact ⟨(series.series instrument (decide_eq_true rfl)).symm, same⟩
  · intro mixed order
    constructor
    · refine SameOn.eq fun i => (alone i calls).1.trans (SameOn.symm ?_)
      rw [← order i]
      exact (alone i mixed).1
    · intro instrument
      exact (alone instrument mixed).2.trans ((order instrument).symm ▸ (alone instrument calls).2.symm)
  · intro fits
    refine ⟨fun _ => ne_breach_of_mem_offerAll fits b, fun instrument => ?_, ?_⟩
    · rw [mem_instruments_offerAll_iff fits, ← points_offerAll fits b]
      exact filterMap_toOption_ne_nil_iff
    · intro forward instrument known
      rw [points_offerAll fits]
      exact latest_offerAll fits b forward ((mem_instruments_offerAll_iff fits b).1 known)

/-- Of two instruments with quotes that come by turns one has a quote that goes back in time and one a
price that is none, and a third has nothing but such a price. The first two calls may change places. -/
theorem offerAll_apart_turns :
    let euro : Tick := ⟨"EURUSD", 1.0, 1.5, 1000⟩
    let yen : Tick := ⟨"USDJPY", 140.0, 141.0, 400⟩
    let rest : List Tick :=
      [⟨"EURUSD", 1.0, 1.5, 900⟩, ⟨"USDJPY", 0.0, 141.0, 500⟩, ⟨"GBPUSD", 1.25, -1.0, 500⟩,
        ⟨"EURUSD", 1.25, 1.75, 1000⟩]
    let left (quotes : List Tick) := ((offerAll .checking quotes).run (TickStore.new 3600000)).2
    (0 : Int) ≤ 3600000 ∧ (∀ t ∈ euro :: yen :: rest, fitsSigned (t.ts - 3600000) = true) ∧
    left (yen :: euro :: rest) = left (euro :: yen :: rest) ∧
    ((offer .checking ⟨"EURUSD", 1.0, 1.5, 900⟩).run.run (left [euro])).2 = left [euro] ∧
    "USDJPY" ∈ (left (euro :: yen :: rest)).instruments ∧
    "GBPUSD" ∉ (left (euro :: yen :: rest)).instruments ∧
    (left (euro :: yen :: rest)).latest "EURUSD" = .ok ⟨1000, 1.5⟩ := by
  intro euro yen rest left
  have forward : (0 : Int) ≤ 3600000 := by decide
  have fits : ∀ t ∈ euro :: yen :: rest, fitsSigned (t.ts - 3600000) = true := by decide
  obtain ⟨refused, -, order, fitting⟩ := offerAll_apart .checking 3600000 (euro :: yen :: rest)
  obtain ⟨-, listed, last⟩ := fitting fits
  have known : "EURUSD" ∈ (left (euro :: yen :: rest)).instruments := by decide +kernel
  have swapped (i : String) : callsFor i (yen :: euro :: rest) = callsFor i (euro :: yen :: rest) := by
    rw [callsFor_cons i yen, callsFor_cons i euro rest, callsFor_cons i euro (yen :: rest),
      callsFor_cons i yen rest]
    by_cases own : euro.instrument = i
    · subst own
      rfl
    · rw [if_neg own, List.nil_append, List.nil_append]
  refine ⟨forward, fits, (order _ swapped).1, ?_, ?_, ?_, ?_⟩
  · exact refused _ _ (.invalidInput "EURUSD" (.timeRegressed 900 1000)) (by decide +kernel)
  · exact (listed "USDJPY").2 ⟨⟨400, 140.5⟩, by decide +kernel⟩
  · intro there
    obtain ⟨p, given⟩ := (listed "GBPUSD").1 there
    have answers : answersFor "GBPUSD" (euro :: yen :: rest)
        ((offerAll .checking (euro :: yen :: rest)).run (TickStore.new 3600000)).1
          = [.error (.failure (.invalidInput "GBPUSD" (.badPrices 1.25 (-1.0))))] := by
      decide +kernel
    rw [answers] at given
    cases List.mem_singleton.1 given
  · obtain ⟨p, accepted, shown⟩ := last forward "EURUSD" known
    have expected : ((answersFor "EURUSD" (euro :: yen :: rest)
        ((offerAll .checking (euro :: yen :: rest)).run (TickStore.new 3600000)).1).filterMap
          Except.toOption).getLast? = some ⟨1000, 1.5⟩ := by decide +kernel
    cases accepted.symm.trans expected
    exact shown

end FxPulse.Checked
