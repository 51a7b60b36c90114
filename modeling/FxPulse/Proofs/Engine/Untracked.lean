import FxPulse.Proofs.Engine.Beside
import FxPulse.Proofs.Engine.Steady
import FxPulse.Proofs.Strength.Recorded

/-!
# `Proofs/Engine/Untracked.lean` — what other instruments do to strengths

Ticks of instruments that are not tracked have no say in strengths. But they move the time of the data, and
with it the times at which strengths are sampled: if one of them is ahead of all tracked pairs when a
refresh comes, strengths are sampled although none of them can have changed.

> Of two runs with the same heeded actions, the samples of strengths, the oscillators and what is published
> of them are the same as long as both sample at the same times (`Beside.alike`); and that they do if no
> other instrument is ahead of all tracked pairs at a refresh (`sampleTime?_eq`).

Conversely, the time of the last sample can be told from the samples, so that two runs whose samples are the
same have taken them at the same times (`sampleTime?_eq_of_agree`).
-/

set_option autoImplicit false

namespace FxPulse

open StrengthHistory (samples)
open TickStore (SameOn)

/-- What a bank reads depends on the sources of its entries. -/
theorem Bank.refresh_congr {b : Bank} {provider other : Provider}
    (same : ∀ e ∈ b.entries, other e.spec.source = provider e.spec.source) :
    b.refresh other = b.refresh provider := by
  have pending : ∀ e ∈ b.entries, e.pending other = e.pending provider := by
    intro e he
    rw [BankEntry.pending, BankEntry.pending, same e he]
  have read : ∀ e ∈ b.entries, e.readOn other = e.readOn provider := by
    intro e he
    rw [BankEntry.readOn, BankEntry.readOn, pending e he]
  have lengths : ∀ e ∈ b.entries, (e.pending other).length = (e.pending provider).length := by
    intro e he
    rw [pending e he]
  rw [refresh_eq, refresh_eq, List.map_congr_left read, List.map_congr_left lengths]

namespace Engine

/-! ## The time of the data -/

/-- The latest times of some instruments. -/
def timesOf (e : Engine) (some_of : String → Bool) : List Int :=
  (e.store.instruments.filter some_of).filterMap fun i => (e.store.latest i).toOption.map (·.ts)

/-- No other instrument is ahead of all tracked pairs. -/
def Led (currencies : List String) (e : Engine) : Prop :=
  ∀ ts ∈ e.timesOf (fun i => !isTracked currencies i), ∃ lead ∈ e.timesOf (isTracked currencies), ts ≤ lead

instance (currencies : List String) (e : Engine) : Decidable (e.Led currencies) :=
  inferInstanceAs (Decidable (∀ ts ∈ e.timesOf _, ∃ lead ∈ e.timesOf _, ts ≤ lead))

/-- Then it is the tracked pairs that tell the time. -/
theorem dataTime?_of_led {currencies : List String} {e : Engine} (led : e.Led currencies) :
    e.dataTime? = (e.timesOf (isTracked currencies)).max? := by
  apply max?_eq_of_forall_le
  · exact (List.filter_sublist.filterMap _).subset
  · intro ts mem
    obtain ⟨i, there, own⟩ := List.mem_filterMap.1 mem
    cases tracked : isTracked currencies i with
    | true => exact ⟨ts, List.mem_filterMap.2 ⟨i, List.mem_filter.2 ⟨there, tracked⟩, own⟩, Int.le_refl ts⟩
    | false =>
      exact led ts (List.mem_filterMap.2 ⟨i, List.mem_filter.2 ⟨there, by rw [tracked]; rfl⟩, own⟩)

theorem timesOf_eq {p : String → Bool} {a b : Engine} (same : SameOn p a.store b.store) :
    b.timesOf p = a.timesOf p := by
  rw [timesOf, timesOf, same.instruments]
  refine List.filterMap_congr fun i hi => ?_
  rw [same.latest (List.mem_filter.1 hi).2]

/-- Engines that are led by the same pairs sample at the same time. -/
theorem sampleTime?_eq {c : Config} {a b : Engine} (akin : Akin c a b) (left : a.Led c.currencies)
    (right : b.Led c.currencies) (sampledAt : b.sampledAt = a.sampledAt) :
    b.sampleTime? = a.sampleTime? := by
  have due : b.isDue = a.isDue := by
    funext ts
    rw [isDue, isDue, sampledAt]
  rw [sampleTime?, sampleTime?, dataTime?_of_led left, dataTime?_of_led right, timesOf_eq akin.store, due]

/-! ## What is the same as long as samples are -/

/-- What a source has depends on tracked pairs and on strengths, if a price is of a tracked pair. -/
theorem series_congr {p : String → Bool} {a b : Engine} (store : SameOn p a.store b.store)
    (history : b.strengthHistory = a.strengthHistory) {source : Source}
    (priced : ∀ i, source = .price i → p i = true) : b.series source = a.series source := by
  have strengths : b.strengthPoints? = a.strengthPoints? := by
    funext currency window
    rw [strengthPoints?_eq, strengthPoints?_eq, history]
  cases source with
  | price i => rw [series_price, series_price, store.read? (priced i rfl)]
  | strength currency window => exact congrFun (congrFun strengths currency) window
  | differential base quote window =>
    funext since
    unfold series
    rw [strengths]

/-- Both sides of a refresh take the same samples, or none. -/
theorem sampleStrength_eq_of_together {a b : Engine} (strength : b.strength = a.strength)
    (together : samples a.strength = [] ∨ b.sampleTime? = a.sampleTime?)
    (history : b.strengthHistory = a.strengthHistory) :
    b.sampleStrength.1.strengthHistory = a.sampleStrength.1.strengthHistory := by
  rw [sampleStrength_eq_sampleTime?, sampleStrength_eq_sampleTime?]
  dsimp only
  rcases together with nothing | same
  · have unchanged : ∀ (h : StrengthHistory) (time : Option Int),
        (time.elim h fun ts => (h.record ts a.strength).1) = h := by
      intro h time
      cases time with
      | none => rfl
      | some ts => rw [Option.elim_some, StrengthHistory.record_of_samples_eq_nil nothing]
    rw [strength, unchanged, unchanged, history]
  · rw [strength, same, history]

theorem Alike.refresh {c : Config} {a b a' b' : Engine} (left : Reachable c a) (right : Reachable c b)
    (akin : Akin c a b) (alike : Alike a b)
    (together : samples a.strength = [] ∨ b.sampleTime? = a.sampleTime?) {watch again : Stopwatch}
    {summary other : RefreshSummary} (h : a.refresh watch = .ok (a', summary))
    (more : b.refresh again = .ok (b', other)) : Alike a' b' := by
  have history := sampleStrength_eq_of_together (akin.strength_eq left.configured right.configured)
    together alike.strengthHistory
  have specs := akin.specs_eq left.configured right.configured
  obtain ⟨strengthHistory, sampledAt, _, bank, _, _, sampling, ensured, -, rfl, -⟩ := refresh_eq_ok h
  obtain ⟨strengthHistory', sampledAt', _, _, _, _, sampling', ensured', -, rfl, -⟩ := refresh_eq_ok more
  rw [sampling, sampling'] at history
  rw [alike.bank, specs, ensured] at ensured'
  obtain ⟨rfl, -⟩ := Prod.mk.inj (Except.ok.inj ensured')
  have read : bank.refresh (series { b with strengthHistory := strengthHistory', sampledAt := sampledAt' })
      = bank.refresh (series { a with strengthHistory, sampledAt }) := by
    refine Bank.refresh_congr fun entry mem => ?_
    refine series_congr (p := isTracked c.currencies) (a := { a with strengthHistory, sampledAt })
      (b := { b with strengthHistory := strengthHistory', sampledAt := sampledAt' }) akin.store history
      fun i price => ?_
    have asked := Bank.mem_of_ensureAll ensured left.asked _ (List.mem_map_of_mem mem)
    have source := (mem_specs_iff.1 asked).1
    rw [price] at source
    obtain ⟨-, pair, named, within⟩ := price_mem_sources_iff.1 source
    rwa [isTracked, named, Option.any_some, ← left.configured.currencies]
  have published := alike.published
  refine ⟨history, ?_, ?_⟩
  · dsimp only
    rw [read]
  · dsimp only
    rw [read, published]

/-! ## Along two runs -/

/-- Something holds at each refresh of one run and the corresponding one of another, of the engines before
and after it. -/
def AtRefreshes (c : Config) (table other : Table) (actions others : List Action)
    (holds : Engine → Engine → Engine → Engine → Prop) : Prop :=
  ∀ early watch early' watch', early ++ [.refresh watch] <+: actions →
    early' ++ [.refresh watch'] <+: others → heeded c.currencies early' = heeded c.currencies early →
      ∀ a after a' after', (new c table).performAll early = .ok a → a.perform (.refresh watch) = .ok after →
        (new c other).performAll early' = .ok a' → a'.perform (.refresh watch') = .ok after' →
          holds a after a' after'

/-- Both runs sample strengths at the same times, where there are any. -/
def InStep (c : Config) (table other : Table) (actions others : List Action) : Prop :=
  AtRefreshes c table other actions others fun a _ b _ =>
    samples a.strength = [] ∨ b.sampleTime? = a.sampleTime?

/-- Both runs have the same samples after each refresh. -/
def SameSamples (c : Config) (table other : Table) (actions others : List Action) : Prop :=
  AtRefreshes c table other actions others fun _ a _ b => b.strengthHistory = a.strengthHistory

/-- Whenever a run refreshes, no other instrument is ahead of all tracked pairs. -/
def KeptUp (c : Config) (table : Table) (actions : List Action) : Prop :=
  ∀ early watch, early ++ [.refresh watch] <+: actions →
    ∀ e, (new c table).performAll early = .ok e → e.Led c.currencies

section Runs

variable {c : Config} {table other : Table} {actions others : List Action} {a b : Engine}

theorem AtRefreshes.mono {holds : Engine → Engine → Engine → Engine → Prop} {more others' : List Action}
    (h : AtRefreshes c table other more others' holds) (left : actions <+: more) (right : others <+: others') :
    AtRefreshes c table other actions others holds :=
  fun early watch early' watch' before before' =>
    h early watch early' watch' (before.trans left) (before'.trans right)

theorem KeptUp.mono {more : List Action} (h : KeptUp c table more) (before : actions <+: more) :
    KeptUp c table actions :=
  fun early watch earlier => h early watch (earlier.trans before)

namespace Beside

/-- **As long as both sample at the same times, all that comes of samples is the same.** -/
theorem alike (h : Beside c table other actions others a b)
    (inStep : InStep c table other actions others) : Alike a b := by
  refine h.keeps ⟨rfl, rfl, rfl⟩ ?_ ?_
  · intro a b a' b' now left right
    exact left.1.symm.trans (now.trans right.1)
  · intro early early' watch again a b a' b' summary summary' earlier earlier' before h more now
    refine Alike.refresh before.reachable.1 before.reachable.2 before.akin now ?_ h more
    exact inStep _ _ _ _ earlier earlier' before.heeded_eq _ _ _ _ before.ran.1 (perform_of_refresh h)
      before.ran.2 (perform_of_refresh more)

/-- Where tracked pairs tell the time of both, the times of the last samples are the same. -/
theorem sampledAt_eq (h : Beside c table other actions others a b) (left : KeptUp c table actions)
    (right : KeptUp c other others) : b.sampledAt = a.sampledAt := by
  refine h.keeps (R := fun a b => b.sampledAt = a.sampledAt) rfl ?_ ?_
  · intro a b a' b' now left right
    rw [left.2, right.2, now]
  · intro early early' watch again a b a' b' summary summary' earlier earlier' before h more now
    have time := sampleTime?_eq before.akin (left _ _ earlier _ before.ran.1)
      (right _ _ earlier' _ before.ran.2) now
    rw [(sampled_of_refresh h).2, (sampled_of_refresh more).2, sampleStrength_eq_sampleTime?,
      sampleStrength_eq_sampleTime?]
    dsimp only
    rw [time, now]

/-- If samples are the same after each refresh, they are the same at any time. -/
theorem strengthHistory_eq (h : Beside c table other actions others a b)
    (same : SameSamples c table other actions others) : b.strengthHistory = a.strengthHistory := by
  refine h.keeps (R := fun a b => b.strengthHistory = a.strengthHistory) rfl ?_ ?_
  · intro a b a' b' now left right
    rw [left.1.strengthHistory, right.1.strengthHistory, now]
  · intro early early' watch again a b a' b' summary summary' earlier earlier' before h more now
    exact same _ _ _ _ earlier earlier' before.heeded_eq _ _ _ _ before.ran.1 (perform_of_refresh h)
      before.ran.2 (perform_of_refresh more)

end Beside

/-- Two runs with the same heeded actions are side by side. -/
theorem beside_of_ran (proper : c.state.Proper)
    (same : heeded c.currencies others = heeded c.currencies actions)
    (left : (new c table).performAll actions = .ok a) (right : (new c other).performAll others = .ok b) :
    Beside c table other actions others a b := by
  obtain ⟨last, beside⟩ : ∃ last, Beside c table other actions others a last :=
    exists_beside proper same left
  have ran := beside.ran.2
  rw [right] at ran
  obtain rfl := Except.ok.inj ran
  exact beside

/-- Whether tracked pairs keep up can be told from the states before the last action. -/
theorem keptUp_of_forall_inits (led : ∀ early ∈ actions.dropLast.inits,
    ((new c table).performAll early).toOption.all fun e => decide (e.Led c.currencies)) :
    KeptUp c table actions := by
  rintro early watch ⟨late, rfl⟩ e ran
  have before : early <+: (early ++ [Action.refresh watch] ++ late).dropLast := by
    rw [List.append_assoc, List.singleton_append, List.dropLast_append_of_ne_nil (List.cons_ne_nil _ _)]
    exact List.prefix_append _ _
  have now := led early ((List.mem_inits _ _).2 before)
  rw [ran] at now
  exact of_decide_eq_true now

theorem inStep_of_keptUp (proper : c.state.Proper) (left : KeptUp c table actions)
    (right : KeptUp c other others) : InStep c table other actions others := by
  intro early watch early' watch' before before' same a after b after' ran _ ran' _
  have beside := beside_of_ran proper same ran ran'
  have sampledAt := beside.sampledAt_eq (left.mono ((List.prefix_append _ _).trans before))
    (right.mono ((List.prefix_append _ _).trans before'))
  exact .inr (sampleTime?_eq beside.akin (left _ _ before _ ran) (right _ _ before' _ ran') sampledAt)

end Runs

/-! ## What samples tell of their times -/

theorem Reachable.timely {c : Config} {e : Engine} (forward : 0 ≤ c.retention) (h : Reachable c e) :
    e.strengthHistory.Timely e.sampledAt := by
  induction h with
  | new table => exact StrengthHistory.timely_new forward
  | step action before performed ih =>
    cases refreshes : action.isRefresh with
    | false =>
      obtain ⟨alike, sampledAt⟩ := alike_of_perform refreshes performed
      rwa [alike.strengthHistory, sampledAt]
    | true =>
      cases action with
      | ingest t => cases refreshes
      | setTable table => cases refreshes
      | refresh watch =>
        obtain ⟨summary, refreshed⟩ := perform_refresh_eq_ok performed
        rw [(sampled_of_refresh refreshed).1, (sampled_of_refresh refreshed).2]
        exact (timely_sampleStrength ih).1

/-- Engines with the same samples that take others, and have the same again, take them at the same time. -/
theorem sampleTime?_eq_of_agree {a b : Engine} (left : a.strengthHistory.Timely a.sampledAt)
    (right : b.strengthHistory.Timely b.sampledAt) (strength : b.strength = a.strength)
    (before : b.strengthHistory = a.strengthHistory)
    (behind : b.sampleStrength.1.strengthHistory = a.sampleStrength.1.strengthHistory) :
    samples a.strength = [] ∨ b.sampleTime? = a.sampleTime? := by
  rw [or_iff_not_imp_left]
  intro some_sample
  obtain ⟨⟨key, percent⟩, mem⟩ := List.exists_mem_of_ne_nil _ some_sample
  have own := List.mem_map_of_mem (f := Prod.fst) mem
  have times := (timely_sampleStrength left).2 key own
  have timesToo := (timely_sampleStrength right).2 key (strength ▸ own)
  rw [behind, times, before] at timesToo
  -- A time at which samples are taken is later than that of any sample before.
  have later : ∀ {e : Engine} {ts : Int}, e.strengthHistory.Timely e.sampledAt →
      e.sampleTime? = some ts → e.strengthHistory.lastTime? key ≠ some ts := by
    intro e ts timely time last
    obtain ⟨l, hl, order⟩ := timely.upTo key ts last
    exact absurd (lt_of_sampleTime? time l hl) (Int.not_lt.2 order)
  cases time : a.sampleTime? with
  | none =>
    cases other : b.sampleTime? with
    | none => rfl
    | some ts =>
      rw [time, other] at timesToo
      exact absurd (before ▸ timesToo) (later right other)
  | some ts =>
    cases other : b.sampleTime? with
    | none =>
      rw [time, other] at timesToo
      exact absurd timesToo.symm (later left time)
    | some ts' =>
      rw [time, other] at timesToo
      exact timesToo.symm

theorem inStep_of_sameSamples {c : Config} {table other : Table} {actions others : List Action}
    (proper : c.state.Proper) (forward : 0 ≤ c.retention)
    (same : SameSamples c table other actions others) : InStep c table other actions others := by
  intro early watch early' watch' before before' heeds a after b after' ran performed ran' performed'
  have beside := beside_of_ran proper heeds ran ran'
  have history := beside.strengthHistory_eq
    (same.mono ((List.prefix_append _ _).trans before) ((List.prefix_append _ _).trans before'))
  obtain ⟨left, right⟩ := beside.reachable
  obtain ⟨summary, refreshed⟩ := perform_refresh_eq_ok performed
  obtain ⟨summary', refreshed'⟩ := perform_refresh_eq_ok performed'
  have behind : after'.strengthHistory = after.strengthHistory :=
    same _ _ _ _ before before' heeds _ _ _ _ ran performed ran' performed'
  rw [(sampled_of_refresh refreshed).1, (sampled_of_refresh refreshed').1] at behind
  exact sampleTime?_eq_of_agree (left.timely forward) (right.timely forward)
    (beside.akin.strength_eq left.configured right.configured) history behind

/-- Two currencies, and one window. -/
def oneWindow : Config.Lookup
  | "WINDOWS" => some "5m"
  | "OSC_WINDOW" => some "5m"
  | name => twoCurrencies name

/-- Two quotes of one pair, a minute apart. -/
def euroDollar : List Tick := [⟨"EURUSD", 1.0, 1.0, 0⟩, ⟨"EURUSD", 1.5, 1.5, 60000⟩]

def gold (ts : Int) : Tick := ⟨"XAUUSD", 2000.0, 2000.0, ts⟩

def euroRun : List Action := euroDollar.map .ingest ++ [.refresh ⟨0, 1⟩]

/-- Gold is quoted, too, right after the pair and at the same times. -/
def goldRun : List Action :=
  euroDollar.flatMap (fun t => [.ingest t, .ingest (gold t.ts)]) ++ [.refresh ⟨0, 1⟩]

end Engine

end FxPulse
