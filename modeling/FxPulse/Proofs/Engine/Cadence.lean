import FxPulse.Proofs.Config.Load
import FxPulse.Proofs.Edge.Attempts
import FxPulse.Proofs.Engine.Prices
import FxPulse.Proofs.Number.Undefined

/-!
# `Proofs/Engine/Cadence.lean` — when to refresh

Ticks come when they come, and refreshes happen in between: every second, or every hour. What an engine
publishes about prices does not depend on it.

> Two runs over the same ticks that both end with a refresh publish the same outputs over prices, each
> of them that of an oscillator that took in all accepted ticks (`published_cadence`),

as long as no tick is forgotten before it has been read (`Session`).
-/

set_option autoImplicit false

namespace FxPulse

namespace Engine

/-! ## Ticks and the store -/

def ticksOf (actions : List Action) : List Tick :=
  actions.filterMap fun
    | .ingest t => some t
    | _ => none

theorem store_ingest (e : Engine) (t : Tick) : (e.ingest t).1.store = e.store.after t := by
  unfold ingest TickStore.after
  cases e.store.add t with
  | ok answer => rfl
  | error cause => rfl

/-- What an action leaves as it is: the settings, and the store but for ticks. -/
structure Advances (e after : Engine) (ticks : List Tick) : Prop where
  oscillators : after.oscillators = e.oscillators
  currencies : after.currencies = e.currencies
  edgeSettings : after.edgeSettings = e.edgeSettings
  store : after.store = e.store.addAll ticks

theorem perform_advances {e after : Engine} {action : Action} (h : e.perform action = .ok after) :
    Advances e after (ticksOf [action]) := by
  cases action with
  | ingest t =>
    obtain rfl := Except.ok.inj h
    have store := store_ingest e t
    rcases e.ingest_eq t with ⟨grown, point, -, eq⟩ | eq
    all_goals
      rw [eq] at store ⊢
      exact ⟨rfl, rfl, rfl, store⟩
  | setTable table =>
    obtain rfl := Except.ok.inj h
    exact ⟨rfl, rfl, rfl, rfl⟩
  | refresh watch =>
    obtain ⟨summary, refreshed⟩ := perform_refresh_eq_ok h
    obtain ⟨_, _, _, _, _, _, -, -, -, rfl, -⟩ := refresh_eq_ok refreshed
    exact ⟨rfl, rfl, rfl, rfl⟩

theorem performAll_advances {e after : Engine} {actions : List Action}
    (h : e.performAll actions = .ok after) : Advances e after (ticksOf actions) := by
  induction actions generalizing e with
  | nil =>
    obtain rfl := Except.ok.inj h
    exact ⟨rfl, rfl, rfl, rfl⟩
  | cons action rest ih =>
    obtain ⟨mid, first, later⟩ := foldlM_cons_eq_ok_iff.1 h
    have one := perform_advances first
    have others := ih later
    have ticks : ticksOf (action :: rest) = ticksOf [action] ++ ticksOf rest :=
      List.filterMap_append (l := [action])
    constructor
    · rw [others.oscillators, one.oscillators]
    · rw [others.currencies, one.currencies]
    · rw [others.edgeSettings, one.edgeSettings]
    · rw [others.store, one.store, ticks, TickStore.addAll_append]

theorem performAll_append {e after : Engine} {actions more : List Action} :
    e.performAll (actions ++ more) = .ok after ↔
      ∃ mid, e.performAll actions = .ok mid ∧ mid.performAll more = .ok after := by
  rw [performAll, List.foldlM_append, bind_eq_ok_iff]
  rfl

theorem performAll_concat {e after : Engine} {actions : List Action} {action : Action} :
    e.performAll (actions ++ [action]) = .ok after ↔
      ∃ mid, e.performAll actions = .ok mid ∧ mid.perform action = .ok after := by
  rw [performAll_append]
  refine exists_congr fun mid => and_congr_right fun _ => ?_
  rw [performAll, List.foldlM_cons, bind_eq_ok_iff]
  constructor
  · rintro ⟨last, performed, same⟩
    rwa [← Except.ok.inj same]
  · exact fun performed => ⟨after, performed, rfl⟩

/-! ## Sessions -/

/-- A run of a new engine over some ticks, with refreshes wherever they are, the last of them at the end.
Every accepted tick is still retained at the first refresh after it, and there is room for all. -/
structure Session (c : Config) (table : Table) (ticks : List Tick) (actions : List Action) : Prop where
  ticks : ticksOf actions = ticks
  closed : ∃ watch, actions.getLast? = some (.refresh watch)
  kept : ∀ early quotes watch late before after,
    actions = early ++ quotes ++ .refresh watch :: late → (∀ a ∈ quotes, a.isRefresh = false) →
    (new c table).performAll early = .ok before → before.performAll quotes = .ok after →
    ∀ i, ∀ p ∈ before.store.accepted (ticksOf quotes) i, p ∈ (after.store.seriesOf i).points.toList
  room : ∀ early late e, actions = early ++ late → (new c table).performAll early = .ok e →
    e.store.HasRoom

/-- The points accepted of some ticks since the start. -/
def accepted (c : Config) (ticks : List Tick) (instrument : String) : List Point :=
  (TickStore.new c.retention).accepted ticks instrument

theorem accepted_append (c : Config) {table : Table} {early : List Action} {mid : Engine}
    (ran : (new c table).performAll early = .ok mid) (late : List Action) (instrument : String) :
    accepted c (ticksOf (early ++ late)) instrument
      = accepted c (ticksOf early) instrument
        ++ mid.store.accepted (ticksOf late) instrument := by
  rw [ticksOf, List.filterMap_append, accepted, TickStore.accepted_append,
    (performAll_advances ran).store]
  rfl

/-- At any time the series hold what retention leaves of what has been accepted, if there has been
room. -/
theorem store_holds {c : Config} {table : Table} {actions : List Action} (forward : 0 ≤ c.retention)
    (room : ∀ early late e, actions = early ++ late → (new c table).performAll early = .ok e →
      e.store.HasRoom) {early late : List Action} {e : Engine} (h : actions = early ++ late)
    (ran : (new c table).performAll early = .ok e) :
    e.store.Holds (accepted c (ticksOf early)) ∧ e.store.retention = c.retention := by
  have hasRoom : ∀ a b, ticksOf early = a ++ b →
      ((TickStore.new c.retention).addAll a).HasRoom := by
    intro a b split
    obtain ⟨x, y, rfl, rfl, rfl⟩ := List.filterMap_eq_append_iff.1 split
    obtain ⟨mid, first, -⟩ := performAll_append.1 ran
    have there := room x (y ++ late) mid (by rw [h, List.append_assoc]) first
    rwa [(performAll_advances first).store] at there
  have holds := (TickStore.holds_new c.retention).addAll forward hasRoom
  rw [(performAll_advances ran).store]
  exact ⟨holds, TickStore.retention_addAll _ _⟩

/-- Ticks that all lie within the retention are a session, whenever there are refreshes. -/
theorem session_of_young {c : Config} {ticks : List Tick} {actions : List Action}
    (forward : 0 ≤ c.retention) (few : ticks.length < seriesCapacity)
    (young : ∀ t ∈ ticks, ∀ u ∈ ticks, t.ts - c.retention ≤ u.ts) (h : ticksOf actions = ticks)
    (closed : ∃ watch, actions.getLast? = some (.refresh watch)) (table : Table) :
    Session c table ticks actions := by
  have room : ∀ early late e, actions = early ++ late → (new c table).performAll early = .ok e →
      e.store.HasRoom := by
    intro early late e split ran instrument
    have size := TickStore.size_seriesOf_addAll_le (new c table).store (ticksOf early) instrument
    have shorter : (ticksOf early).length ≤ ticks.length := by
      rw [← h, split, ticksOf, ticksOf, List.filterMap_append, List.length_append]
      exact Nat.le_add_right _ _
    rw [← (performAll_advances ran).store] at size
    have empty : ((new c table).store.seriesOf instrument).size = 0 := rfl
    omega
  refine ⟨h, closed, ?_, room⟩
  intro early quotes watch late before after split quiet ranEarly ranQuotes i p hp
  have ran := performAll_append.2 ⟨before, ranEarly, ranQuotes⟩
  obtain ⟨holds, retention⟩ := store_holds forward room split ran
  have there : p ∈ accepted c (ticksOf (early ++ quotes)) i := by
    rw [accepted_append c ranEarly]
    exact List.mem_append_right _ hp
  have within : ∀ q ∈ accepted c (ticksOf (early ++ quotes)) i, ∃ t ∈ ticks, q.ts = t.ts := by
    intro q hq
    obtain ⟨t, ht, time⟩ := TickStore.exists_of_mem_accepted hq
    refine ⟨t, ?_, time⟩
    rw [← h, split, ticksOf, List.filterMap_append]
    exact List.mem_append_left _ ht
  rw [(holds.holds i).points, holds.retention, retention, Series.recent]
  cases last : (accepted c (ticksOf (early ++ quotes)) i).getLast? with
  | none =>
    rw [List.getLast?_eq_none_iff.1 last] at there
    cases there
  | some newest =>
    obtain ⟨t, ht, time⟩ := within newest (List.mem_of_getLast? last)
    obtain ⟨u, hu, own⟩ := within p there
    have age := young t ht u hu
    refine List.mem_filter.2 ⟨there, decide_eq_true ?_⟩
    omega

section Run

variable {c : Config} {table : Table} {ticks : List Tick} {actions : List Action}
  (session : Session c table ticks actions) (forward : 0 ≤ c.retention)
include session forward

/-- At any time the oscillators over prices have read what had been accepted by the last refresh. -/
theorem Session.follows (numbers : Numbers c.oscillators) {early late : List Action} {e : Engine}
    (h : actions = early ++ late) (ran : (new c table).performAll early = .ok e) :
    ∃ read quotes mid, early = read ++ quotes ∧ (∀ a ∈ quotes, a.isRefresh = false) ∧
      (new c table).performAll read = .ok mid ∧ mid.performAll quotes = .ok e ∧
      e.Follows (accepted c (ticksOf read)) := by
  -- Action by action: a quiet one joins the rest that has not been read, a refresh reads the rest.
  induction early using List.reverseRecOn generalizing late e with
  | nil =>
    obtain rfl := Except.ok.inj ran
    exact ⟨[], [], _, rfl, nofun, rfl, rfl, follows_new c table⟩
  | append_singleton front action ih =>
    obtain ⟨before, ranFront, step⟩ := performAll_concat.1 ran
    have frontOf : actions = front ++ action :: late := by
      rw [h, List.append_assoc]
      rfl
    obtain ⟨read, quotes, mid, rfl, quiet, ranRead, ranQuotes, follows⟩ := ih frontOf ranFront
    cases refreshes : action.isRefresh with
    | false =>
      refine ⟨read, quotes ++ [action], mid, by rw [List.append_assoc], ?_, ranRead,
        performAll_concat.2 ⟨before, ranQuotes, step⟩, follows.quiet refreshes step⟩
      intro a ha
      rcases List.mem_append.1 ha with old | new
      · exact quiet a old
      · rwa [List.mem_singleton.1 new]
    | true =>
      cases action with
      | ingest t => cases refreshes
      | setTable table => cases refreshes
      | refresh watch =>
        obtain ⟨summary, refreshed⟩ := perform_refresh_eq_ok step
        refine ⟨_, [], e, (List.append_nil _).symm, nofun, ran, rfl, ?_⟩
        have news := accepted_append c ranRead quotes
        obtain ⟨holds, retention⟩ := store_holds forward session.room frontOf ranFront
        rw [funext news] at holds
        have kept := session.kept read quotes watch late mid before frontOf quiet ranRead ranQuotes
        have numbers : Numbers before.oscillators := by
          rw [(performAll_advances ranFront).oscillators]
          exact numbers
        have now := follows.refresh holds (by rwa [retention]) kept numbers refreshed
        rw [← funext news] at now
        have ticks : ticksOf (read ++ quotes ++ [.refresh watch]) = ticksOf (read ++ quotes) := by
          rw [ticksOf, List.filterMap_append]
          exact List.append_nil _
        rwa [ticks]

/-- A session that ends with a refresh ends with all of them having read everything. -/
theorem Session.follows_all (numbers : Numbers c.oscillators) {e : Engine}
    (ran : (new c table).performAll actions = .ok e) :
    e.Follows (accepted c ticks) ∧ e.oscillators = c.oscillators ∧ e.currencies = c.currencies := by
  obtain ⟨read, quotes, mid, split, quiet, -, -, follows⟩ :=
    session.follows forward numbers (List.append_nil actions).symm ran
  have settings := performAll_advances ran
  refine ⟨?_, settings.oscillators, settings.currencies⟩
  have nothing : quotes = [] := by
    obtain ⟨watch, closed⟩ := session.closed
    cases last : quotes.getLast? with
    | none => exact List.getLast?_eq_none_iff.1 last
    | some action =>
      rw [split, List.getLast?_append, last] at closed
      have refresh := quiet action (List.mem_of_getLast? last)
      rw [Option.some.inj closed] at refresh
      cases refresh
  rw [nothing, List.append_nil] at split
  rwa [← session.ticks, split]

end Run

/-! ## That there is an answer -/

/-- The rings of all oscillators can be stored. -/
def Storable (o : OscillatorSettings) : Prop :=
  ∀ k ∈ kinds o, ∀ n ∈ k.1.capacities, n ≤ Ring.greatestCapacity

/-- Matching always has an answer, for one instrument and for many. -/
theorem exists_matches {e : Engine} (proper : e.edgeSettings.state.Proper) :
    ∃ answer : String → EdgeMatch, (∀ i, e.edge i = .ok (answer i)) ∧
      ∀ instruments : List String, (instruments.mapM fun i => do return (i, ← e.edge i))
        = .ok (instruments.map fun i => (i, answer i)) := by
  choose answer answered using exists_matchEdge proper e.store e.table
  refine ⟨answer, answered, fun instruments => mapM_eq_ok fun i _ => ?_⟩
  rw [edge, answered]
  rfl

/-- So a refresh has an answer if what is asked for can be set up. -/
theorem exists_refresh_of_ensured {e : Engine} {bank : Bank × Nat}
    (ensured : e.bank.ensureAll e.specs = .ok bank) (proper : e.edgeSettings.state.Proper)
    (watch : Stopwatch) : ∃ answer, e.refresh watch = .ok answer := by
  obtain ⟨strengthHistory, sampledAt, same⟩ := e.exists_sampleStrength
  unfold refresh
  generalize e.sampleStrength = answer at same
  obtain ⟨sampled, samples⟩ := answer
  obtain rfl := same
  obtain ⟨answer, -, matched⟩ := exists_matches (e := { e with strengthHistory, sampledAt }) proper
  exact ⟨_, bind_eq_ok_iff.2 ⟨_, ensured, bind_eq_ok_iff.2 ⟨_, matched _, rfl⟩⟩⟩

theorem exists_refresh {e : Engine} (storable : Storable e.oscillators)
    (proper : e.edgeSettings.state.Proper) (watch : Stopwatch) :
    ∃ answer, e.refresh watch = .ok answer := by
  have fits : ∀ spec ∈ e.specs, Bank.Fits spec :=
    fun spec mem => storable _ (mem_specs_iff.1 mem).2
  obtain ⟨bank, ensured⟩ := Bank.exists_ensureAll e.bank fits
  exact exists_refresh_of_ensured ensured proper watch

theorem exists_performAll {e : Engine} (storable : Storable e.oscillators)
    (proper : e.edgeSettings.state.Proper) (actions : List Action) :
    ∃ after, e.performAll actions = .ok after := by
  induction actions generalizing e with
  | nil => exact ⟨e, rfl⟩
  | cons action rest ih =>
    have first : ∃ mid, e.perform action = .ok mid := by
      cases action with
      | ingest t => exact ⟨_, rfl⟩
      | setTable table => exact ⟨_, rfl⟩
      | refresh watch =>
        obtain ⟨answer, refreshed⟩ := exists_refresh storable proper watch
        exact ⟨answer.1, perform_of_refresh refreshed⟩
    obtain ⟨mid, first⟩ := first
    have settings := perform_advances first
    obtain ⟨after, later⟩ := ih (e := mid) (by rwa [settings.oscillators])
      (by rwa [settings.edgeSettings])
    exact ⟨after, foldlM_cons_eq_ok_iff.2 ⟨mid, first, later⟩⟩

/-! ## What is published -/

/-- What is published of an oscillator over a price that has taken in some points. -/
def priceOutput (instrument : String) (points : List Point) (k : OscillatorKind × Bands) :
    PublishedOscillator :=
  let spec : OscillatorSpec := ⟨.price instrument, k.1, k.2⟩
  ⟨spec.label, spec.source, spec.kind, ((Oscillator.new k.1).follow k.2 points).2⟩

theorem Follows.published_iff {e : Engine} {came : String → List Point} (follows : e.Follows came)
    (label : String) {instrument : String} {p : PublishedOscillator}
    (price : p.source = .price instrument) :
    e.published[label]? = some p ↔ e.Tracks instrument ∧ came instrument ≠ [] ∧
      p.label = label ∧ ∃ k ∈ kinds e.oscillators, p = priceOutput instrument (came instrument) k := by
  constructor
  · intro published
    obtain ⟨b, hb, label, rfl⟩ := follows.shown label p published
    obtain ⟨tracks, some_came, read⟩ := follows.covers.reads b hb instrument price
    refine ⟨tracks, some_came, label, _, follows.covers.known b hb, ?_⟩
    have output := congrArg Prod.snd read.state
    dsimp only at output
    have own : b.spec = ⟨.price instrument, b.spec.kind, b.spec.bands⟩ := by rw [← price]; rfl
    rw [priceOutput, ← output, ← own]
    rfl
  · rintro ⟨tracks, some_came, rfl, k, own, rfl⟩
    obtain ⟨b, hb, same⟩ := follows.covers.covers instrument tracks some_came k own
    obtain ⟨-, -, read⟩ := follows.covers.reads b hb instrument (by rw [same])
    have output := congrArg Prod.snd read.state
    have published := follows.shows b hb instrument (by rw [same])
    rw [same] at published output
    dsimp only at output
    rw [priceOutput]
    dsimp only
    rw [published, BankEntry.shown, same, output]

theorem numbers_of_isNaN {o : OscillatorSettings} (overbought : o.bands.overbought.isNaN = false)
    (oversold : o.bands.oversold.isNaN = false) (zScore : o.zScoreBand.isNaN = false) : Numbers o := by
  have bounded : o.bands.sameAs o.bands = true := by
    rw [Bands.sameAs, Number.beq_self_of_number overbought, Number.beq_self_of_number oversold]
    rfl
  have symmetric : Bands.sameAs ⟨o.zScoreBand, -o.zScoreBand⟩ ⟨o.zScoreBand, -o.zScoreBand⟩ = true := by
    rw [Bands.sameAs, Number.beq_self_of_number zScore,
      Number.beq_self_of_number (Number.isNaN_neg zScore)]
    rfl
  intro k own
  simp only [kinds, List.mem_cons, List.not_mem_nil, or_false] at own
  rcases own with rfl | rfl | rfl | rfl
  · exact bounded
  · exact bounded
  · exact symmetric
  · exact bounded

/-- Two quotes at the same time, and one a minute later. -/
def euroQuotes : List Tick :=
  [⟨"EURUSD", 1.0, 1.5, 0⟩, ⟨"EURUSD", 1.25, 1.5, 0⟩, ⟨"EURUSD", 1.5, 1.75, 60000⟩]

/-- Refreshed after each quote. -/
def eagerRun : List Action := euroQuotes.flatMap fun t => [.ingest t, .refresh ⟨0, 1⟩]

/-- Refreshed once, at the end. -/
def lazyRun : List Action := euroQuotes.map .ingest ++ [.refresh ⟨0, 1⟩]

def euroSetup : Config.Lookup
  | "CURRENCIES" => some "EUR,USD"
  | "ZSCORE_WINDOW" => some "2"
  | _ => none

end Engine

end FxPulse
