import FxPulse.Engine.Basic
import FxPulse.Proofs.History.TickStore

/-!
# `Proofs/Engine/Reach.lean` — the states an engine can be in

Three things change an engine: a tick, a refresh, another table. What they do is said once, in
`ingest_eq`, `sampleStrength_eq` and `refresh_eq_ok`; a property of engines is then shown of a new one
and of one step, and holds of every engine that is `Reachable`.

> In every reachable engine, all prices and all strengths are in order of time.
-/

set_option autoImplicit false

namespace FxPulse

namespace StrengthHistory

theorem recordOne_allOrdered {h : StrengthHistory} (sorted : Series.AllOrdered h.series) (ts : Int)
    (key : StrengthKey) (percent : Float) :
    Series.AllOrdered (h.recordOne ts key percent).1.series := by
  unfold recordOne
  cases pushed : (h.series.getD key (Series.new h.retention seriesCapacity)).push ⟨ts, percent⟩ with
  | error r => exact sorted
  | ok grown => exact sorted.insert (Series.push_ordered pushed (sorted.getD _ _ _))

/-- A recording takes one sample after the other; the count of those taken goes along. -/
theorem record_fst (h : StrengthHistory) (ts : Int) (strengths : Strengths) :
    (h.record ts strengths).1
      = (samples strengths).foldl (fun h sample => (h.recordOne ts sample.1 sample.2).1) h :=
  (List.foldl_hom Prod.fst fun _ _ => rfl).symm

theorem record_allOrdered {h : StrengthHistory} (sorted : Series.AllOrdered h.series) (ts : Int)
    (strengths : Strengths) : Series.AllOrdered (h.record ts strengths).1.series := by
  rw [record_fst]
  induction samples strengths generalizing h with
  | nil => exact sorted
  | cons sample rest ih => exact ih (recordOne_allOrdered sorted ts sample.1 sample.2)

theorem read?_ordered {h : StrengthHistory} (sorted : Series.AllOrdered h.series) {key : StrengthKey}
    {series : Series} (found : h.read? key = some series) : Point.Ordered series.points.toList :=
  sorted _ _ (Option.filter_eq_some_iff.1 found).1

end StrengthHistory

namespace Engine

/-! ## Steps -/

/-- What can happen to an engine. -/
inductive Action where
  | ingest (t : Tick)
  | refresh (watch : Stopwatch)
  | setTable (table : Table)

def Action.isRefresh : Action → Bool
  | .refresh _ => true
  | _ => false

def perform (e : Engine) : Action → Except Fault Engine
  | .ingest t => .ok (e.ingest t).1
  | .refresh watch => (e.refresh watch).map Prod.fst
  | .setTable table => .ok (e.setTable table)

def performAll (e : Engine) (actions : List Action) : Except Fault Engine := actions.foldlM perform e

/-- The states that an engine configured by `c` can come to. -/
inductive Reachable (c : Config) : Engine → Prop where
  | new (table : Table) : Reachable c (new c table)
  | step {e after : Engine} (action : Action) (before : Reachable c e)
      (h : e.perform action = .ok after) : Reachable c after

/-- What some actions lead to is reachable. -/
theorem Reachable.performAll {c : Config} {e after : Engine} {actions : List Action}
    (before : Reachable c e) (h : e.performAll actions = .ok after) : Reachable c after :=
  foldlM_keeps (Reachable c) (fun before h => Reachable.step _ before h) before h

/-- What a tick does to an engine. -/
theorem ingest_eq (e : Engine) (t : Tick) :
    (∃ store point, e.store.add t = .ok (store, point) ∧
        (e.ingest t).1 = { e with store, health := e.health.accept point.ts }) ∨
      (e.ingest t).1 = { e with health := e.health.reject } := by
  unfold ingest
  cases h : e.store.add t with
  | error cause => exact .inr rfl
  | ok added => exact .inl ⟨added.1, added.2, rfl, rfl⟩

/-- What sampling does to an engine: it records, or it leaves everything as it is. -/
theorem sampleStrength_eq (e : Engine) :
    (∃ ts, e.dataTime? = some ts ∧ e.isDue ts = true ∧
        e.sampleStrength = ({ e with
          strengthHistory := (e.strengthHistory.record ts e.strength).1
          sampledAt := some ts }, (e.strengthHistory.record ts e.strength).2)) ∨
      e.sampleStrength = (e, 0) := by
  unfold sampleStrength
  cases h : e.dataTime? with
  | none => exact .inr rfl
  | some ts =>
    by_cases due : e.isDue ts = true
    · exact .inl ⟨ts, rfl, due, if_pos due⟩
    · exact .inr (if_neg due)

/-- Sampling changes nothing but the history of strengths and the time of the last sample. -/
theorem exists_sampleStrength (e : Engine) :
    ∃ strengthHistory sampledAt, e.sampleStrength.1 = { e with strengthHistory, sampledAt } := by
  rcases e.sampleStrength_eq with ⟨ts, -, -, sampled⟩ | unchanged
  · exact ⟨_, _, by rw [sampled]⟩
  · exact ⟨e.strengthHistory, e.sampledAt, by rw [unchanged]⟩

/-- What a refresh does to an engine. Sampling touches neither what is asked for nor what is matched, so
oscillators are set up and instruments matched as the engine stands before. -/
theorem refresh_eq_ok {e after : Engine} {watch : Stopwatch} {summary : RefreshSummary}
    (h : e.refresh watch = .ok (after, summary)) :
    ∃ strengthHistory sampledAt samples bank added found,
      e.sampleStrength = ({ e with strengthHistory, sampledAt }, samples) ∧
      e.bank.ensureAll e.specs = .ok (bank, added) ∧
      (e.store.instruments.mapM fun i => do return (i, ← e.edge i)) = .ok found ∧
      after = { e with
        strengthHistory, sampledAt
        bank := (bank.refresh (series { e with strengthHistory, sampledAt })).1
        published := (bank.refresh (series { e with strengthHistory, sampledAt })).1.readings.foldl
          publish e.published
        edges := found.foldl (fun edges (i, edge) => edges.insert i edge) e.edges
        latency := e.latency.recordMicros watch.micros
        health := e.health.refreshedAt watch.finishedAt } ∧
      summary = ⟨e.store.instruments.length, samples, added,
        (bank.refresh (series { e with strengthHistory, sampledAt })).2,
        (found.filter fun (_, edge) => edge.isMatched).length⟩ := by
  obtain ⟨strengthHistory, sampledAt, same⟩ := e.exists_sampleStrength
  unfold refresh at h
  generalize e.sampleStrength = sampled at h same ⊢
  obtain ⟨sampled, samples⟩ := sampled
  obtain rfl := same
  dsimp only at h
  obtain ⟨⟨bank, added⟩, ensured, h⟩ := bind_eq_ok_iff.1 h
  obtain ⟨found, matching, h⟩ := bind_eq_ok_iff.1 h
  cases h
  exact ⟨strengthHistory, sampledAt, samples, bank, added, found, rfl, ensured, matching, rfl, rfl⟩

/-- An action that refreshes is a refresh, whose summary nobody looks at. -/
theorem perform_refresh_eq_ok {e after : Engine} {watch : Stopwatch}
    (h : e.perform (.refresh watch) = .ok after) :
    ∃ summary, e.refresh watch = .ok (after, summary) := by
  dsimp only [Engine.perform] at h
  cases refreshed : e.refresh watch with
  | error fault =>
    rw [refreshed] at h
    cases h
  | ok result =>
    rw [refreshed] at h
    exact ⟨result.2, by rw [← Except.ok.inj h]⟩

theorem perform_of_refresh {e after : Engine} {watch : Stopwatch} {summary : RefreshSummary}
    (h : e.refresh watch = .ok (after, summary)) : e.perform (.refresh watch) = .ok after := by
  rw [perform, h]
  rfl

/-! ## Order of time -/

/-- All series of an engine are in order of time. -/
structure Orderly (e : Engine) : Prop where
  prices : Series.AllOrdered e.store.series
  strengths : Series.AllOrdered e.strengthHistory.series

theorem orderly_new (c : Config) (table : Table) : (new c table).Orderly :=
  ⟨Series.allOrdered_empty, Series.allOrdered_empty⟩

theorem Orderly.sampleStrength {e : Engine} (orderly : e.Orderly) : e.sampleStrength.1.Orderly := by
  rcases e.sampleStrength_eq with ⟨ts, -, -, sampled⟩ | unchanged
  · rw [sampled]
    exact ⟨orderly.prices, StrengthHistory.record_allOrdered orderly.strengths ts e.strength⟩
  · rw [unchanged]
    exact orderly

theorem Orderly.perform {e after : Engine} (orderly : e.Orderly) {action : Action}
    (h : e.perform action = .ok after) : after.Orderly := by
  cases action with
  | ingest t =>
    obtain rfl := Except.ok.inj h
    rcases e.ingest_eq t with ⟨store, point, added, taken⟩ | refused
    · rw [taken]
      exact ⟨TickStore.add_allOrdered added orderly.prices, orderly.strengths⟩
    · rw [refused]
      exact ⟨orderly.prices, orderly.strengths⟩
  | refresh watch =>
    obtain ⟨summary, refreshed⟩ := perform_refresh_eq_ok h
    obtain ⟨strengthHistory, sampledAt, samples, bank, added, found, sampling, -, -, rfl, -⟩ :=
      refresh_eq_ok refreshed
    have kept := orderly.sampleStrength
    rw [sampling] at kept
    exact ⟨kept.prices, kept.strengths⟩
  | setTable table =>
    obtain rfl := Except.ok.inj h
    exact ⟨orderly.prices, orderly.strengths⟩

/-- **Every reachable engine is orderly.** -/
theorem Reachable.orderly {c : Config} {e : Engine} (h : Reachable c e) : e.Orderly := by
  induction h with
  | new table => exact orderly_new c table
  | step action before h ih => exact ih.perform h

end Engine

end FxPulse
