import FxPulse.Proofs.Engine.Registered
import FxPulse.Proofs.Engine.Steady

/-!
# `Proofs/Engine/Settled.lean` — a second refresh finds nothing to do

A refresh brings everything derived from the ticks up to date, so that another one right after it has
nothing left: the data has not moved on, all oscillators are there and have read their sources, and what
would be published is published. `Settled` says so of an engine.

> A refresh leaves a settled engine (`settled_of_refresh`), and a settled engine is left by a refresh as
> it is, but for the signs of life (`Settled.refresh`).
-/

set_option autoImplicit false

namespace FxPulse

theorem Bank.refresh_of_drained {b : Bank} {provider : Provider}
    (drained : ∀ e ∈ b.entries, e.pending provider = []) : b.refresh provider = (b, 0) := by
  have same : ∀ e ∈ b.entries, e.readOn provider = e := by
    intro e he
    rw [BankEntry.readOn, drained e he, BankEntry.takeAll_nil]
  have nothing : ∀ e ∈ b.entries, (e.pending provider).length = 0 := by
    intro e he
    rw [drained e he, List.length_nil]
  rw [refresh_eq, List.map_congr_left same, List.map_id', List.map_congr_left nothing, List.map_const',
    List.sum_replicate, smul_zero]

namespace Engine

/-! ## Sampling -/

theorem sampleStrength_of_not_due {e : Engine} (h : ∀ ts, e.dataTime? = some ts → e.isDue ts = false) :
    e.sampleStrength = (e, 0) := by
  unfold sampleStrength
  cases time : e.dataTime? with
  | none => rfl
  | some ts =>
    dsimp only
    rw [if_neg (by rw [h ts time]; exact Bool.false_ne_true)]

/-- After sampling, none is due. -/
theorem isDue_sampleStrength {e : Engine} {ts : Int} (time : e.dataTime? = some ts) :
    e.sampleStrength.1.isDue ts = false := by
  unfold sampleStrength
  rw [time]
  dsimp only
  by_cases due : e.isDue ts = true
  · rw [if_pos due]
    exact decide_eq_false (Int.lt_irrefl ts)
  · rw [if_neg due]
    exact Bool.eq_false_iff.2 due

/-! ## Matches -/

/-- A refresh publishes what each known instrument matches, and leaves other instruments alone. -/
theorem getElem?_edges_of_refresh {e after : Engine} {watch : Stopwatch} {summary : RefreshSummary}
    (proper : e.edgeSettings.state.Proper) (h : e.refresh watch = .ok (after, summary))
    (instrument : String) :
    after.edges[instrument]?
      = if instrument ∈ e.store.series then (after.edge instrument).toOption
        else e.edges[instrument]? := by
  obtain ⟨_, _, _, _, _, found, -, -, matching, rfl, -⟩ := refresh_eq_ok h
  obtain ⟨answer, answered, matched⟩ := exists_matches proper
  obtain rfl := Except.ok.inj ((matched _).symm.trans matching)
  dsimp only
  rw [getElem?_foldl_insert Prod.fst Prod.snd]
  cases entry : ((e.store.instruments.map fun i => (i, answer i)).reverse.find?
      fun entry => entry.1 = instrument) with
  | none =>
    have unknown : instrument ∉ e.store.series := by
      intro known
      have mem := List.mem_map_of_mem (f := fun i => (i, answer i))
        (Std.ExtTreeMap.mem_keys.2 known)
      have missing := List.find?_eq_none.1 entry _ (List.mem_reverse.2 mem)
      simp at missing
    rw [if_neg unknown]
    rfl
  | some found =>
    obtain ⟨i, mem, rfl⟩ := List.mem_map.1 (List.mem_reverse.1 (List.mem_of_find?_eq_some entry))
    obtain rfl : i = instrument := by simpa using List.find?_some entry
    rw [if_pos (Std.ExtTreeMap.mem_keys.1 mem)]
    exact (congrArg Except.toOption (answered i)).symm

/-- Matches are published of instruments that are known. -/
theorem Reachable.known_of_edges {c : Config} {e : Engine} (proper : c.state.Proper)
    (h : Reachable c e) {instrument : String} {m : EdgeMatch}
    (published : e.edges[instrument]? = some m) : instrument ∈ e.store.series := by
  induction h generalizing m with
  | new table => cases published
  | @step e after action before h ih =>
    have known : instrument ∈ e.store.series → instrument ∈ after.store.series := by
      intro known
      rw [(perform_advances h).store]
      exact e.store.mem_series_addAll _ known
    cases action with
    | ingest t =>
      obtain rfl := Except.ok.inj h
      refine known (ih (m := m) ?_)
      rcases e.ingest_eq t with ⟨store, point, -, eq⟩ | eq <;> rwa [eq] at published
    | setTable table =>
      obtain rfl := Except.ok.inj h
      exact known (ih published)
    | refresh watch =>
      obtain ⟨summary, refreshed⟩ := perform_refresh_eq_ok h
      have settings : e.edgeSettings.state.Proper := by rwa [before.configured.edgeSettings]
      rw [getElem?_edges_of_refresh settings refreshed] at published
      split at published
      · rename_i there
        exact known there
      · exact known (ih published)

/-! ## Settled engines -/

/-- Nothing is left to do: no sample is due, nothing is to be set up, nothing is to be read, and what is
published is what there is. -/
structure Settled (e : Engine) (found : List (String × EdgeMatch)) : Prop where
  sampled : ∀ ts, e.dataTime? = some ts → e.isDue ts = false
  equipped : e.Equipped
  drained : ∀ b ∈ e.bank.entries, b.pending e.series = []
  published : e.bank.readings.foldl publish e.published = e.published
  matched : (e.store.instruments.mapM fun i => do return (i, ← e.edge i)) = .ok found
  edges : found.foldl (fun edges (i, edge) => edges.insert i edge) e.edges = e.edges

/-- A refresh leaves a settled engine. -/
theorem settled_of_refresh {e after : Engine} {watch : Stopwatch} {summary : RefreshSummary}
    (orderly : e.Orderly) (firm : e.Firm) (h : e.refresh watch = .ok (after, summary)) :
    ∃ found, after.Settled found ∧ summary.instruments = after.store.instruments.length ∧
      summary.edgesMatched = (found.filter fun (_, edge) => edge.isMatched).length := by
  have equipped := equipped_of_refresh firm h
  have inOrder := orderly.sampleStrength
  have notDue : ∀ ts, e.dataTime? = some ts → e.sampleStrength.1.isDue ts = false :=
    fun _ => isDue_sampleStrength
  obtain ⟨_, _, _, _, _, found, sampling, -, matching, rfl, rfl⟩ := refresh_eq_ok h
  rw [sampling] at inOrder notDue
  refine ⟨found, ⟨notDue, equipped, ?_, ?_, matching, ?_⟩, rfl, rfl⟩
  · intro b hb
    rw [Bank.refresh_eq] at hb
    obtain ⟨before, -, rfl⟩ := List.mem_map.1 hb
    exact BankEntry.pending_readOn (inOrder.steady _)
  · exact foldl_publish_foldl_publish _ e.published
  · exact foldl_insert_foldl_insert Prod.fst Prod.snd found e.edges

/-- A settled engine refreshes, and does nothing. -/
theorem Settled.refresh {e : Engine} {found : List (String × EdgeMatch)} (settled : e.Settled found)
    (watch : Stopwatch) :
    e.refresh watch = .ok ({ e with
        latency := e.latency.recordMicros watch.micros
        health := e.health.refreshedAt watch.finishedAt },
      ⟨e.store.instruments.length, 0, 0, 0, (found.filter fun (_, edge) => edge.isMatched).length⟩) := by
  have published := settled.published
  have edges := settled.edges
  rw [Engine.refresh, sampleStrength_of_not_due settled.sampled]
  dsimp only
  rw [Bank.ensureAll_of_holds settled.equipped]
  refine bind_eq_ok_iff.2 ⟨_, rfl, bind_eq_ok_iff.2 ⟨_, settled.matched, ?_⟩⟩
  dsimp only
  rw [Bank.refresh_of_drained settled.drained, published, edges]
  rfl

/-- **A second refresh finds nothing to do.** Of two refreshes with nothing in between, in any state that
an engine can come to, the second takes no sample, adds no oscillator and reads no point; it knows the same
instruments and finds the same matches, and it leaves all as it is but for its own time and duration.
And what is published of matches is, for each known instrument, what it matches now. -/
theorem refresh_settled {lookup : Config.Lookup} {c : Config} (loaded : Config.load lookup = .ok c)
    (overbought : c.oscillators.bands.overbought.isNaN = false)
    (oversold : c.oscillators.bands.oversold.isNaN = false)
    (zScore : c.oscillators.zScoreBand.isNaN = false) {e mid : Engine} (reachable : Reachable c e)
    {watch : Stopwatch} {summary : RefreshSummary} (h : e.refresh watch = .ok (mid, summary)) :
    (∀ again, mid.refresh again = .ok ({ mid with
        latency := mid.latency.recordMicros again.micros
        health := mid.health.refreshedAt again.finishedAt },
      { summary with strengthSamples := 0, oscillatorsAdded := 0, pointsConsumed := 0 })) ∧
    ∀ instrument m, mid.edges[instrument]? = some m ↔
      instrument ∈ mid.store.series ∧ mid.edge instrument = .ok m := by
  have proper := Config.load_proper loaded
  have numbers := numbers_of_isNaN overbought oversold zScore
  have firm := reachable.firm_iff.2 (.inl numbers)
  constructor
  · intro again
    obtain ⟨found, settled, instruments, matched⟩ := settled_of_refresh reachable.orderly firm h
    rw [settled.refresh again, ← instruments, ← matched]
  · intro instrument m
    have settings : e.edgeSettings.state.Proper := by rwa [reachable.configured.edgeSettings]
    have performed : e.perform (.refresh watch) = .ok mid := perform_of_refresh h
    have store : mid.store = e.store := (perform_advances performed).store
    have shown := getElem?_edges_of_refresh settings h instrument
    constructor
    · intro published
      have known := (Reachable.step _ reachable performed).known_of_edges proper published
      rw [shown, if_pos (store ▸ known)] at published
      cases matched : mid.edge instrument with
      | error fault =>
        rw [matched] at published
        cases published
      | ok answer =>
        rw [matched] at published
        cases published
        exact ⟨known, rfl⟩
    · rintro ⟨known, matched⟩
      rw [shown, if_pos (store ▸ known), matched]
      rfl

/-- A refresh after two quotes, and two more quotes. -/
def quotedTwice : List Action :=
  [.ingest ⟨"EURUSD", 1.0, 1.0, 0⟩, .ingest ⟨"EURUSD", 1.5, 1.5, 60000⟩, .refresh ⟨0, 1⟩,
    .ingest ⟨"EURUSD", 1.25, 1.25, 60000⟩, .ingest ⟨"EURUSD", 1.5, 1.5, 120000⟩]

/-- The next refresh samples six windows of two currencies, and its oscillators read twenty points; the one
after that has nothing to do. -/
theorem refresh_settled_quoted : ∃ c e mid summary,
    Config.load twoCurrencies = .ok c ∧ c.oscillators.bands.overbought.isNaN = false ∧
      c.oscillators.bands.oversold.isNaN = false ∧ c.oscillators.zScoreBand.isNaN = false ∧
      Reachable c e ∧ e.refresh ⟨120500, 10⟩ = .ok (mid, summary) ∧ summary = ⟨1, 12, 0, 20, 0⟩ ∧
      mid.refresh ⟨121500, 10⟩ = .ok ({ mid with
          latency := mid.latency.recordMicros 10
          health := mid.health.refreshedAt 121500 }, ⟨1, 0, 0, 0, 0⟩) ∧
      ∃ m, mid.edges["EURUSD"]? = some m ∧ mid.edge "EURUSD" = .ok m := by
  have computed : (Config.load twoCurrencies).toOption.any (fun c : Config =>
      decide (c.oscillators.bands.overbought.isNaN = false ∧
        c.oscillators.bands.oversold.isNaN = false ∧ c.oscillators.zScoreBand.isNaN = false) &&
      ((new c ∅).performAll quotedTwice).toOption.any fun e =>
        (e.refresh ⟨120500, 10⟩).toOption.any fun answer =>
          decide (answer.2 = ⟨1, 12, 0, 20, 0⟩ ∧ answer.1.edges["EURUSD"]?.isSome = true)) = true := by
    decide +kernel
  obtain ⟨c, loaded, rest⟩ := exists_ok_of_any computed
  obtain ⟨numbers, rest⟩ := Bool.and_eq_true_iff.1 rest
  obtain ⟨overbought, oversold, zScore⟩ := of_decide_eq_true numbers
  obtain ⟨e, ran, rest⟩ := exists_ok_of_any rest
  obtain ⟨⟨mid, summary⟩, refreshed, rest⟩ := exists_ok_of_any rest
  obtain ⟨did, matched⟩ := of_decide_eq_true rest
  have reachable : Reachable c e := (Reachable.new ∅).performAll ran
  obtain ⟨again, edges⟩ := refresh_settled loaded overbought oversold zScore reachable refreshed
  obtain ⟨m, shown⟩ := Option.isSome_iff_exists.1 matched
  have second := again ⟨121500, 10⟩
  rw [show summary = ⟨1, 12, 0, 20, 0⟩ from did] at second
  exact ⟨c, e, mid, summary, loaded, overbought, oversold, zScore, reachable, refreshed, did, second, m,
    shown, ((edges "EURUSD" m).1 shown).2⟩

end Engine

end FxPulse
