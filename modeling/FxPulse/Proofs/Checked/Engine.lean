import FxPulse.Checked.Engine
import FxPulse.Proofs.Checked.Matching
import FxPulse.Proofs.Checked.Oscillators
import FxPulse.Proofs.Checked.Stores
import FxPulse.Proofs.Engine.Registered

/-!
# `Proofs/Checked/Engine.lean` — what an engine does

Percent changes, strengths, the sources of oscillators, matching and refreshing, down to the look-ups,
rings and states that they consist of. Most of it is safe in any engine whatever it has been through:
histories may be pruned to nothing, look-ups reach back further than they go, and windows come out in words
as they may.

Three things have to be seen to. The state that is matched is proper and fits, the rings that are asked for
can be stored, and the index of the table leads to its rows, as that of a table made of rows does
(`Ready`). Where words hold all that is computed as well (`Engine.Fits`), a refresh does what it would do
with numbers of any size (`refresh_completes`).
-/

set_option autoImplicit false

namespace FxPulse

open FxPulse.Number

/-- A word holds the time that each window reaches back to from the end of some points. -/
def Window.AllFit (windows : List Window) (points : Array Point) : Prop :=
  ∀ current, points.back? = some current → ∀ w ∈ windows, fitsSigned (current.ts - w.length) = true

namespace Checked

variable {b : Build}

/-! ## Percent changes and strengths -/

theorem changesOf_eq {points : Array Point} {windows : List Window}
    (fits : Window.AllFit windows points) (b : Build) :
    changesOf b points windows = .ok (Changes.ofPoints points windows) := by
  unfold changesOf Changes.ofPoints
  cases newest : points.back? with
  | none => rfl
  | some current =>
    have each := fits current newest
    clear fits
    dsimp only
    unfold Changes.measure
    generalize (∅ : Changes) = changes
    induction windows generalizing changes with
    | nil => rfl
    | cons w rest ih =>
      obtain ⟨first, later⟩ := List.forall_mem_cons.1 each
      rw [List.foldlM_cons, List.foldl_cons, measureOne, signed_eq first, ok_bind, atOrBefore_eq,
        ok_bind]
      cases (Point.atOrBefore? points (current.ts - w.length)).bind (Changes.percent? current) with
      | none => exact ih later _
      | some percent => exact ih later _

/-- Words hold the times that windows reach back to from the ends of all series. -/
def WindowsFit (s : TickStore) (windows : List Window) : Prop :=
  ∀ instrument series, s.read? instrument = some series → Window.AllFit windows series.points

theorem changes_eq {s : TickStore} {windows : List Window} (fits : WindowsFit s windows) (b : Build)
    (instrument : String) : changes b s windows instrument = .ok (s.changes windows instrument) := by
  unfold changes TickStore.changes
  cases held : s.read? instrument with
  | none => rfl
  | some series => exact changesOf_eq (fits instrument series held) b

theorem votes_eq (currencies : List String) (instrument : String) (changes : Changes) :
    votes currencies instrument changes = .ok (votes? currencies instrument changes) := by
  rw [votes, votes?, pairOf_eq, ok_bind]
  cases Pair.ofInstrument? instrument <;> rfl

theorem strength_eq {e : Engine} (fits : WindowsFit e.store e.windows) (b : Build) :
    strength b e = .ok e.strength := by
  have votes : (e.store.instruments.mapM fun i => do
      votes e.currencies i (← changes b e.store e.windows i))
        = .ok (e.store.instruments.map fun i =>
          votes? e.currencies i (e.store.changes e.windows i)) :=
    mapM_eq_ok fun i _ => by rw [changes_eq fits, ok_bind, votes_eq]
  rw [strength, votes, ok_bind, Engine.strength, TickStore.strengths, Strengths.ofChanges,
    List.filterMap_map, List.filterMap_map]
  rfl

theorem percentChange_eq {e : Engine} (fits : WindowsFit e.store e.windows) (b : Build)
    (instrument : String) : percentChange b e instrument = .ok (e.percentChange instrument) := by
  rw [percentChange, Engine.percentChange]
  cases e.store.latest instrument with
  | error cause => rfl
  | ok latest =>
    dsimp only
    rw [changes_eq fits]
    rfl

theorem changesOf_ends (points : Array Point) (windows : List Window) :
    Ends b (changesOf b points windows) := by
  unfold changesOf
  split
  · refine Ends.foldlM (fun changes w _ => (Ends.signed _).bind fun ts _ => ?_) _
    rw [atOrBefore_eq, ok_bind]
    split <;> exact .ok _
  · exact .ok _

theorem changes_ends (s : TickStore) (windows : List Window) (instrument : String) :
    Ends b (changes b s windows instrument) := by
  unfold changes
  split
  · exact changesOf_ends _ _
  · exact .ok _

theorem strength_ends (e : Engine) : Ends b (strength b e) := by
  refine (Ends.mapM fun i _ => (changes_ends _ _ _).bind fun changes _ => ?_).bind fun _ _ => .ok _
  exact .of_eq (votes_eq _ _ _)

theorem percentChange_ends (e : Engine) (instrument : String) :
    Ends b (percentChange b e instrument) := by
  unfold percentChange
  split
  · exact (changes_ends _ _ _).map
  · exact .ok _

/-! ## Sources and series -/

theorem pairSources_eq (e : Engine) (instrument : String) :
    pairSources e instrument = .ok (e.pairSources instrument) := by
  rw [pairSources, pairOf_eq, ok_bind, Engine.pairSources]
  cases Pair.ofInstrument? instrument <;> rfl

theorem specs_eq (e : Engine) : specs e = .ok e.specs := by
  rw [specs, mapM_eq_ok fun instrument _ => pairSources_eq e instrument, ok_bind, Engine.specs,
    Engine.sources_eq, List.flatMap_def]
  rfl

theorem pointsOf_eq (points : Array Point) (start : Option Int) :
    pointsOf points start = .ok (start.elim points (Point.since points)) := by
  cases start with
  | none => rfl
  | some ts => exact since_eq points ts

theorem strengthPoints_eq (e : Engine) (currency window : String) (start : Option Int) :
    strengthPoints e currency window start = .ok (e.strengthPoints? currency window start) := by
  rw [strengthPoints, Engine.strengthPoints?]
  cases e.strengthHistory.read? ⟨currency, window⟩ with
  | none => rfl
  | some series =>
    dsimp only
    rw [pointsOf_eq]
    cases start <;> rfl

theorem series_eq (e : Engine) (source : Source) (start : Option Int) :
    series e source start = .ok (e.series source start) := by
  cases source with
  | price instrument =>
    rw [series, Engine.series]
    cases e.store.read? instrument with
    | none => rfl
    | some series =>
      dsimp only
      rw [pointsOf_eq]
      cases start <;> rfl
  | strength currency window => exact strengthPoints_eq e currency window start
  | differential base quote window =>
    rw [series, strengthPoints_eq, strengthPoints_eq, Engine.series]
    dsimp only [ok_bind]
    cases e.strengthPoints? base window start with
    | none => rfl
    | some base =>
      cases e.strengthPoints? quote window start with
      | none => rfl
      | some quote =>
        dsimp only
        rw [differences_eq]
        rfl

/-! ## Ticks -/

theorem ingest_eq {e : Engine} {t : Tick}
    (fits : fitsSigned (t.ts - (e.store.seriesOf t.instrument).retention) = true) (b : Build) :
    ingest b e t = .ok (e.ingest t) := by
  rw [ingest, run_offer fits, Engine.ingest, TickStore.answer, TickStore.after]
  cases e.store.add t <;> rfl

/-- A tick is answered, with its point or with the reason why it is refused. -/
theorem ingest_ends (e : Engine) (t : Tick) : Ends b (ingest b e t) := by
  have offered := offer_ends (b := b) e.store t
  unfold ingest
  revert offered
  obtain ⟨answer, store⟩ := (offer b t).run.run e.store
  intro offered
  cases answer with
  | ok point => exact .ok _
  | error halt =>
    cases halt with
    | failure cause => exact .ok _
    | breach cause =>
      rintro _ ⟨⟩
      exact offered (.breach cause) rfl

end Checked

/-! ## Refreshing -/

/-- Words hold all that an engine computes in a refresh. -/
structure Engine.Fits (e : Engine) : Prop where
  windows : Checked.WindowsFit e.store e.windows
  samples : ∀ ts, e.dataTime? = some ts → ∀ key,
    fitsSigned (ts - (Checked.seriesAt e.strengthHistory key).retention) = true
  kinds : ∀ k ∈ Engine.kinds e.oscillators, (Oscillator.new k.1).Fits
  entries : ∀ entry ∈ e.bank.entries, entry.state.Fits
  matched : ∀ instrument series, e.store.read? instrument = some series →
    e.edgeSettings.FitsAt series

namespace Checked

/-- What an engine must have so that nothing in it breaks off. -/
structure Ready (e : Engine) : Prop where
  storable : Engine.Storable e.oscillators
  proper : e.edgeSettings.state.Proper
  counted : e.edgeSettings.state.Fits
  table : ∃ rows, e.table = Table.ofRows rows

/-- An engine with the same settings and the same table. -/
structure Alike (e after : Engine) : Prop where
  oscillators : after.oscillators = e.oscillators
  edgeSettings : after.edgeSettings = e.edgeSettings
  table : after.table = e.table

theorem Alike.refl (e : Engine) : Alike e e := ⟨rfl, rfl, rfl⟩

theorem Ready.alike {e after : Engine} (ready : Ready e) (same : Alike e after) : Ready after := by
  obtain ⟨oscillators, edgeSettings, table⟩ := same
  exact ⟨oscillators ▸ ready.storable, edgeSettings ▸ ready.proper, edgeSettings ▸ ready.counted,
    table ▸ ready.table⟩

theorem Ready.fits {e : Engine} (ready : Ready e) {spec : OscillatorSpec} (mem : spec ∈ e.specs) :
    Bank.Fits spec :=
  ready.storable _ (Engine.mem_specs_iff.1 mem).2

/-! ### To the same end -/

section Fits

variable {e : Engine} (b : Build)

theorem sampleStrength_eq (fits : e.Fits) : sampleStrength b e = .ok e.sampleStrength := by
  rw [sampleStrength, Engine.sampleStrength]
  cases latest : e.dataTime? with
  | none => rfl
  | some ts =>
    dsimp only
    rw [strength_eq fits.windows, ok_bind, record_eq (fits.samples ts latest)]
    split <;> rfl

/-- What is set up fits if what is there does and what is asked for does. -/
theorem fits_of_ensureAll (fits : e.Fits) {bank : Bank} {added : Nat}
    (ensured : e.bank.ensureAll e.specs = .ok (bank, added)) :
    ∀ entry ∈ bank.entries, entry.state.Fits := by
  obtain ⟨⟨entries, rfl, fresh⟩, -⟩ := Bank.ensureAll_eq_ok ensured
  intro entry mem
  rcases List.mem_append.1 mem with old | new
  · exact fits.entries entry old
  · obtain ⟨spec, asked, -, rfl⟩ := fresh entry new
    exact fits.kinds _ (Engine.mem_specs_iff.1 asked).2

variable (ready : Ready e)
include ready

theorem edge_completes {instrument : String}
    (fits : ∀ series, e.store.read? instrument = some series → e.edgeSettings.FitsAt series) :
    Completes (edge b e instrument) (e.edge instrument) := by
  obtain ⟨rows, table⟩ := ready.table
  rw [edge, Engine.edge, table]
  exact matchEdge_completes ready.proper ready.counted fits b rows

/-- **A refresh comes to the same in words** where words hold what it computes. -/
theorem refresh_completes (fits : e.Fits) (watch : Stopwatch) :
    Completes (refresh b e watch) (e.refresh watch) := by
  obtain ⟨strengthHistory, sampledAt, same⟩ := e.exists_sampleStrength
  rw [refresh, sampleStrength_eq b fits, ok_bind, Engine.refresh]
  generalize e.sampleStrength = sampling at same
  obtain ⟨sampled, samples⟩ := sampling
  obtain rfl := same
  dsimp only
  rw [specs_eq, ok_bind]
  have set_up : Completes (ensureAll b e.bank e.specs) (e.bank.ensureAll e.specs) :=
    ensureAll_completes b e.bank (fun _ mem => ready.fits mem) fun _ mem =>
      fits.kinds _ (Engine.mem_specs_iff.1 mem).2
  refine set_up.bind fun answer ensured => ?_
  obtain ⟨bank, added⟩ := answer
  rw [bankRefresh_eq (series_eq _) (fits_of_ensureAll fits ensured) b, ok_bind]
  have matching : Completes (e.store.instruments.mapM fun i => do return (i, ← edge b e i))
      (e.store.instruments.mapM fun i => do return (i, ← e.edge i)) :=
    .mapM fun i _ => (edge_completes b ready (fits.matched i)).bind fun _ _ => .of_eq rfl rfl
  exact matching.bind fun found _ => .of_eq rfl rfl

end Fits

/-! ### To an end -/

variable {b : Build}

theorem sampleStrength_ends (e : Engine) : Ends b (sampleStrength b e) := by
  unfold sampleStrength
  split
  · split
    · refine (strength_ends e).bind fun strengths _ => ?_
      exact (record_ends _ _ _).bind fun _ _ => .ok _
    · exact .ok _
  · exact .ok _

theorem alike_of_ingest {e after : Engine} {t : Tick} {result : Except Failure Point}
    (taken : ingest b e t = .ok (after, result)) : Alike e after := by
  unfold ingest at taken
  generalize (offer b t).run.run e.store = offered at taken
  obtain ⟨answer, store⟩ := offered
  cases answer with
  | ok point =>
    cases taken
    exact ⟨rfl, rfl, rfl⟩
  | error halt =>
    cases halt with
    | breach cause => cases taken
    | failure cause =>
      cases taken
      exact ⟨rfl, rfl, rfl⟩

theorem alike_of_sampleStrength {e after : Engine} {taken : Nat}
    (sampled : sampleStrength b e = .ok (after, taken)) : Alike e after := by
  unfold sampleStrength at sampled
  split at sampled
  · split at sampled
    · obtain ⟨strengths, -, sampled⟩ := bind_eq_ok_iff.1 sampled
      obtain ⟨recorded, -, sampled⟩ := bind_eq_ok_iff.1 sampled
      cases sampled
      exact ⟨rfl, rfl, rfl⟩
    · cases sampled
      exact .refl e
  · cases sampled
    exact .refl e

theorem alike_of_refresh {e after : Engine} {watch : Stopwatch} {summary : RefreshSummary}
    (refreshed : refresh b e watch = .ok (after, summary)) : Alike e after := by
  obtain ⟨⟨sampled, taken⟩, sampling, refreshed⟩ := bind_eq_ok_iff.1 refreshed
  obtain ⟨oscillators, edgeSettings, table⟩ := alike_of_sampleStrength sampling
  obtain ⟨specs, -, refreshed⟩ := bind_eq_ok_iff.1 refreshed
  obtain ⟨⟨bank, added⟩, -, refreshed⟩ := bind_eq_ok_iff.1 refreshed
  obtain ⟨⟨read, consumed⟩, -, refreshed⟩ := bind_eq_ok_iff.1 refreshed
  obtain ⟨found, -, refreshed⟩ := bind_eq_ok_iff.1 refreshed
  cases refreshed
  exact ⟨oscillators, edgeSettings, table⟩

section Ready

variable {e : Engine} (ready : Ready e)
include ready

theorem edge_ends (instrument : String) : Ends b (edge b e instrument) := by
  obtain ⟨rows, table⟩ := ready.table
  rw [edge, table]
  exact matchEdge_ends ready.proper ready.counted e.store rows instrument

/-- **A refresh comes to an end in every engine that is ready.** -/
theorem refresh_ends (watch : Stopwatch) : Ends b (refresh b e watch) := by
  refine (sampleStrength_ends e).bind fun (sampled, samples) sampling => ?_
  have still := ready.alike (alike_of_sampleStrength sampling)
  dsimp only
  rw [specs_eq, ok_bind]
  refine (ensureAll_ends _ fun _ mem => still.fits mem).bind fun (bank, added) _ => ?_
  have read : Ends b (bankRefresh b bank (series sampled)) :=
    bankRefresh_ends (fun source since => .of_eq (series_eq sampled source since)) bank
  refine read.bind fun (_, consumed) _ => ?_
  exact (Ends.mapM fun i _ => (edge_ends still i).bind fun _ _ => .ok _).bind fun _ _ => .ok _

end Ready

end Checked

end FxPulse
