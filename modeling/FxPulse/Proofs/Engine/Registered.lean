import FxPulse.Proofs.Engine.Cadence
import FxPulse.Proofs.Oscillator.Ensured

/-!
# `Proofs/Engine/Registered.lean` — oscillators are set up once

At each refresh an engine asks its bank for all oscillators that its currencies and instruments call for.
What has been set up before is not set up again, so that a bank never outgrows what is called for, and
instruments that are known already bring nothing new:

> four oscillators for each currency, and eight for each instrument, are as many as there ever are.

All of this hangs on bands that are the same as themselves. With a bound that is no number every refresh
finds its own oscillators missing, and sets them up anew.
-/

set_option autoImplicit false

namespace FxPulse

theorem Bank.specs_refresh (b : Bank) (provider : Provider) :
    (b.refresh provider).1.entries.map (·.spec) = b.entries.map (·.spec) := by
  rw [Bank.refresh_eq, List.map_map]
  exact List.map_congr_left fun e _ => BankEntry.spec_readOn e provider

namespace Engine

/-! ## What is asked for -/

/-- What an instrument is listened to for: if its currencies are tracked, its price and the difference
of their strengths. -/
def pairSources (e : Engine) (instrument : String) : List Source :=
  match Pair.ofInstrument? instrument with
  | some pair =>
    if pair.within e.currencies then
      [.price instrument, .differential pair.base pair.quote e.oscillators.window]
    else []
  | none => []

theorem sources_eq (e : Engine) :
    e.sources = (e.currencies.map fun c => .strength c e.oscillators.window)
      ++ e.store.instruments.flatMap e.pairSources := rfl

theorem mem_pairSources_iff {e : Engine} {instrument : String} {source : Source} :
    source ∈ e.pairSources instrument ↔ ∃ pair, Pair.ofInstrument? instrument = some pair ∧
      pair.within e.currencies = true ∧
      (source = .price instrument ∨
        source = .differential pair.base pair.quote e.oscillators.window) := by
  unfold pairSources
  cases Pair.ofInstrument? instrument with
  | none => simp
  | some pair =>
    by_cases within : pair.within e.currencies = true
    · simp [within]
    · simp [within]

theorem length_pairSources_le (e : Engine) (instrument : String) :
    (e.pairSources instrument).length ≤ 2 := by
  unfold pairSources
  split
  · split
    · exact Nat.le_refl _
    · exact Nat.zero_le _
  · exact Nat.zero_le _

theorem mem_sources_iff {e : Engine} {source : Source} :
    source ∈ e.sources ↔
      (∃ currency ∈ e.currencies, source = .strength currency e.oscillators.window) ∨
      ∃ instrument ∈ e.store.series, source ∈ e.pairSources instrument := by
  rw [sources_eq, List.mem_append, List.mem_map, List.mem_flatMap]
  refine or_congr ?_ ?_
  · exact exists_congr fun currency => and_congr_right fun _ => eq_comm
  · exact exists_congr fun instrument => and_congr_left fun _ => Std.ExtTreeMap.mem_keys

/-- What an engine asks for depends on its settings and its instruments. -/
theorem specs_congr {e other : Engine} (oscillators : other.oscillators = e.oscillators)
    (currencies : other.currencies = e.currencies)
    (instruments : other.store.instruments = e.store.instruments) : other.specs = e.specs := by
  rw [specs, specs, sources, sources, oscillators, currencies, instruments]

theorem pairSources_congr {e other : Engine} (oscillators : other.oscillators = e.oscillators)
    (currencies : other.currencies = e.currencies) : other.pairSources = e.pairSources := by
  funext instrument
  rw [pairSources, pairSources, oscillators, currencies]

/-- What is asked for once is asked for ever after. -/
theorem Advances.mem_specs {e after : Engine} {ticks : List Tick} (h : Advances e after ticks)
    {spec : OscillatorSpec} (mem : spec ∈ e.specs) : spec ∈ after.specs := by
  rw [mem_specs_iff, mem_sources_iff] at mem ⊢
  rw [pairSources_congr h.oscillators h.currencies, h.oscillators, h.currencies]
  obtain ⟨strength | ⟨instrument, known, rest⟩, own⟩ := mem
  · exact ⟨.inl strength, own⟩
  · refine ⟨.inr ⟨instrument, ?_, rest⟩, own⟩
    rw [h.store]
    exact e.store.mem_series_addAll ticks known

/-- All that the engine asks for is the same as itself. -/
def Firm (e : Engine) : Prop := ∀ spec ∈ e.specs, spec.sameAs spec = true

theorem firm_iff {e : Engine} : e.Firm ↔ Numbers e.oscillators ∨ e.currencies = [] := by
  constructor
  · intro firm
    cases currencies : e.currencies with
    | nil => exact .inr rfl
    | cons currency others =>
      refine .inl ?_
      rintro ⟨kind, bands⟩ own
      have source : Source.strength currency e.oscillators.window ∈ e.sources :=
        mem_sources_iff.2 (.inl ⟨currency, by simp [currencies], rfl⟩)
      have same := OscillatorSpec.sameAs_self_iff.1
        (firm ⟨_, kind, bands⟩ (mem_specs_iff.2 ⟨source, own⟩))
      exact same
  · rintro (numbers | untracked) spec mem
    · have same := numbers _ (mem_specs_iff.1 mem).2
      exact OscillatorSpec.sameAs_self_iff.2 same
    · obtain ⟨source, -⟩ := mem_specs_iff.1 mem
      rw [mem_sources_iff, untracked] at source
      simp only [mem_pairSources_iff, untracked, Pair.within] at source
      simp at source

theorem length_sources_le (e : Engine) :
    e.sources.length ≤ e.currencies.length + 2 * e.store.instruments.length := by
  have sum := List.sum_le_card_nsmul (e.store.instruments.map fun i => (e.pairSources i).length) 2
    (List.forall_mem_map.2 fun instrument _ => e.length_pairSources_le instrument)
  rw [List.length_map, smul_eq_mul] at sum
  rw [sources_eq, List.length_append, List.length_map, List.length_flatMap]
  omega

theorem length_specs (e : Engine) : e.specs.length = 4 * e.sources.length := by
  rw [specs, List.length_flatMap]
  simp only [List.length_map, kinds, List.length_cons, List.length_nil, List.map_const',
    List.sum_replicate, smul_eq_mul]
  omega

/-- A currency that is named twice calls for no more than one that is named once. -/
theorem mem_specs_dedup {e : Engine} {spec : OscillatorSpec} :
    spec ∈ specs { e with currencies := e.currencies.dedup } ↔ spec ∈ e.specs := by
  have within : ∀ pair : Pair, pair.within e.currencies.dedup = pair.within e.currencies := by
    intro pair
    simp [Pair.within]
  rw [mem_specs_iff, mem_specs_iff, mem_sources_iff, mem_sources_iff]
  simp only [mem_pairSources_iff, List.mem_dedup, within]

/-- Where bands are not the same as themselves, something is added for each source. -/
theorem length_sources_le_countP {e : Engine} (loose : ¬ Numbers e.oscillators) :
    e.sources.length ≤ e.specs.countP fun spec => !spec.sameAs spec := by
  simp only [Numbers, not_forall, Bool.not_eq_true] at loose
  obtain ⟨k, own, apart⟩ := loose
  have each : ∀ source : Source, 1 ≤ ((kinds e.oscillators).map fun k =>
      (⟨source, k.1, k.2⟩ : OscillatorSpec)).countP fun spec => !spec.sameAs spec := by
    intro source
    rw [Nat.succ_le_iff, List.countP_pos_iff]
    refine ⟨⟨source, k.1, k.2⟩, List.mem_map.2 ⟨k, own, rfl⟩, ?_⟩
    simp [OscillatorSpec.sameAs, apart]
  have sum := List.length_le_sum_of_one_le _ (List.forall_mem_map.2 fun source (_ : source ∈ e.sources) =>
    each source)
  rw [List.length_map] at sum
  rw [specs, List.countP_flatMap]
  exact sum

/-! ## What has been set up -/

/-- A refresh, as far as setting up goes. -/
theorem refresh_sets_up {e after : Engine} {watch : Stopwatch} {summary : RefreshSummary}
    (h : e.refresh watch = .ok (after, summary)) :
    ∃ bank, e.bank.ensureAll e.specs = .ok (bank, summary.oscillatorsAdded) ∧
      after.bank.entries.map (·.spec) = bank.entries.map (·.spec) ∧ after.specs = e.specs := by
  obtain ⟨_, _, _, bank, _, _, -, ensured, -, rfl, rfl⟩ := refresh_eq_ok h
  exact ⟨bank, ensured, Bank.specs_refresh _ _, rfl⟩

/-- Only a refresh sets anything up. -/
theorem perform_sets_up {e after : Engine} {action : Action} (h : e.perform action = .ok after) :
    after.bank = e.bank ∨
      ∃ bank added, e.bank.ensureAll e.specs = .ok (bank, added) ∧
        after.bank.entries.map (·.spec) = bank.entries.map (·.spec) ∧ after.specs = e.specs := by
  cases action with
  | ingest t =>
    obtain rfl := Except.ok.inj h
    rcases e.ingest_eq t with ⟨store, point, -, eq⟩ | eq <;> exact .inl (by rw [eq])
  | setTable table =>
    obtain rfl := Except.ok.inj h
    exact .inl rfl
  | refresh watch =>
    obtain ⟨summary, refreshed⟩ := perform_refresh_eq_ok h
    obtain ⟨bank, setUp⟩ := refresh_sets_up refreshed
    exact .inr ⟨bank, _, setUp⟩

/-- The settings of a reachable engine are those it was configured with. -/
structure Configured (c : Config) (e : Engine) : Prop where
  oscillators : e.oscillators = c.oscillators
  currencies : e.currencies = c.currencies
  edgeSettings : e.edgeSettings = c.edge

theorem Reachable.configured {c : Config} {e : Engine} (h : Reachable c e) : e.Configured c := by
  induction h with
  | new table => exact ⟨rfl, rfl, rfl⟩
  | step action before h ih =>
    have advances := perform_advances h
    exact ⟨advances.oscillators.trans ih.oscillators, advances.currencies.trans ih.currencies,
      advances.edgeSettings.trans ih.edgeSettings⟩

theorem Reachable.firm_iff {c : Config} {e : Engine} (h : Reachable c e) :
    e.Firm ↔ Numbers c.oscillators ∨ c.currencies = [] := by
  rw [Engine.firm_iff, h.configured.oscillators, h.configured.currencies]

/-- What is there was asked for, and still is. -/
theorem Reachable.asked {c : Config} {e : Engine} (h : Reachable c e) :
    ∀ spec ∈ e.bank.entries.map (·.spec), spec ∈ e.specs := by
  induction h with
  | new table => exact nofun
  | step action before h ih =>
    intro spec mem
    rcases perform_sets_up h with same | ⟨bank, added, ensured, setUp, specs⟩
    · rw [same] at mem
      exact (perform_advances h).mem_specs (ih spec mem)
    · rw [setUp] at mem
      rw [specs]
      exact Bank.mem_of_ensureAll ensured ih spec mem

/-- Nothing is there twice. -/
theorem Reachable.once {c : Config} {e : Engine} (h : Reachable c e)
    (firm : Numbers c.oscillators ∨ c.currencies = []) : (e.bank.entries.map (·.spec)).Nodup := by
  induction h with
  | new table => exact List.nodup_nil
  | step action before h ih =>
    rcases perform_sets_up h with same | ⟨bank, added, ensured, setUp, -⟩
    · rwa [same]
    · rw [setUp]
      exact Bank.nodup_ensureAll (before.firm_iff.2 firm) ih ensured

/-! ## Nothing new to set up -/

/-- All that is asked for is there. -/
def Equipped (e : Engine) : Prop := ∀ spec ∈ e.specs, e.bank.holds spec = true

theorem equipped_of_refresh {e after : Engine} {watch : Stopwatch} {summary : RefreshSummary}
    (firm : e.Firm) (h : e.refresh watch = .ok (after, summary)) : after.Equipped := by
  obtain ⟨bank, ensured, setUp, specs⟩ := refresh_sets_up h
  intro spec mem
  rw [specs] at mem
  rw [Bank.holds_congr setUp]
  exact (Bank.ensureAll_eq_ok ensured).2 spec mem (firm spec mem)

/-- What is there stays there. -/
theorem holds_of_performAll {e after : Engine} {actions : List Action}
    (h : e.performAll actions = .ok after) {spec : OscillatorSpec} (held : e.bank.holds spec = true) :
    after.bank.holds spec = true := by
  refine foldlM_keeps (fun e => e.bank.holds spec = true) ?_ held h
  intro e action after held h
  rcases perform_sets_up h with same | ⟨bank, added, ensured, setUp, -⟩
  · rwa [same]
  · obtain ⟨⟨entries, rfl, -⟩, -⟩ := Bank.ensureAll_eq_ok ensured
    rw [Bank.holds_congr setUp]
    exact Bank.holds_append held entries

/-- As long as no instrument is new, nothing is missing. -/
theorem Equipped.performAll {e after : Engine} {actions : List Action} (equipped : e.Equipped)
    (h : e.performAll actions = .ok after)
    (instruments : after.store.instruments = e.store.instruments) : after.Equipped := by
  have advances := performAll_advances h
  intro spec mem
  rw [specs_congr advances.oscillators advances.currencies instruments] at mem
  exact holds_of_performAll h (equipped spec mem)

/-- An engine that has all it asks for refreshes, and adds nothing. -/
theorem Equipped.exists_refresh {e : Engine} (equipped : e.Equipped)
    (proper : e.edgeSettings.state.Proper) (watch : Stopwatch) :
    ∃ after summary, e.refresh watch = .ok (after, summary) ∧ summary.oscillatorsAdded = 0 := by
  have ensured := Bank.ensureAll_of_holds equipped
  obtain ⟨⟨after, summary⟩, refreshed⟩ := exists_refresh_of_ensured ensured proper watch
  obtain ⟨bank, setUp, -⟩ := refresh_sets_up refreshed
  rw [ensured] at setUp
  obtain ⟨-, added⟩ := Prod.mk.inj (Except.ok.inj setUp)
  exact ⟨after, summary, refreshed, added.symm⟩

/-- No source has two oscillators of one kind, and there are no more of them than four for each currency
and eight for each instrument. -/
structure Registered (e : Engine) : Prop where
  once : (e.bank.entries.map fun b => (b.spec.source, b.spec.kind)).Nodup
  size_le : e.bank.size ≤ 4 * (e.currencies.dedup.length + 2 * e.store.instruments.length)

theorem Reachable.registered {c : Config} {e : Engine} (h : Reachable c e)
    (firm : Numbers c.oscillators ∨ c.currencies = []) : e.Registered := by
  constructor
  · -- Of one kind there is only one pair of bands.
    have apart : ∀ x ∈ e.bank.entries.map (·.spec), ∀ y ∈ e.bank.entries.map (·.spec),
        (x.source, x.kind) = (y.source, y.kind) → x = y := by
      intro x hx y hy same
      obtain ⟨source, kind⟩ := Prod.mk.inj same
      have both := kinds_injective (mem_specs_iff.1 (h.asked x hx)).2
        (mem_specs_iff.1 (h.asked y hy)).2 (congrArg OscillatorKind.letter kind)
      cases x
      cases y
      cases source
      cases both
      rfl
    have once := (h.once firm).map_on apart
    rwa [List.map_map] at once
  · let named : Engine := { e with currencies := e.currencies.dedup }
    have within : e.bank.entries.map (·.spec) ⊆ named.specs :=
      fun spec mem => mem_specs_dedup.2 (h.asked spec mem)
    have size := (List.subperm_of_subset (h.once firm) within).length_le
    rw [List.length_map, length_specs] at size
    exact Nat.le_trans size (Nat.mul_le_mul_left 4 named.length_sources_le)

/-- **Oscillators are set up once**, of an accepted configuration, if the bounds of all bands are numbers
or no currency is tracked: then no source ever has two oscillators of one kind, and a refresh adds none
unless there is an instrument that the last refresh did not know. In all other configurations every
refresh adds at least one for each currency. -/
theorem oscillatorsAdded_once {lookup : Config.Lookup} {c : Config}
    (loaded : Config.load lookup = .ok c) :
    (Numbers c.oscillators ∨ c.currencies = [] → ∀ e, Reachable c e → e.Registered ∧
      ∀ watch mid summary, e.refresh watch = .ok (mid, summary) →
        ∀ actions later, mid.performAll actions = .ok later →
          later.store.instruments = mid.store.instruments →
          ∀ again, ∃ after summary, later.refresh again = .ok (after, summary) ∧
            summary.oscillatorsAdded = 0) ∧
    (¬ (Numbers c.oscillators ∨ c.currencies = []) → 0 < c.currencies.length ∧
      ∀ e, Reachable c e → ∀ watch after summary, e.refresh watch = .ok (after, summary) →
        c.currencies.length ≤ summary.oscillatorsAdded) := by
  constructor
  · intro firm e reachable
    refine ⟨reachable.registered firm, ?_⟩
    intro watch mid summary refreshed actions later ran instruments again
    have equipped := (equipped_of_refresh (reachable.firm_iff.2 firm) refreshed).performAll ran
      instruments
    have settled : Reachable c later :=
      (Reachable.step (.refresh watch) reachable (perform_of_refresh refreshed)).performAll ran
    refine equipped.exists_refresh ?_ again
    rw [settled.configured.edgeSettings]
    exact Config.load_proper loaded
  · intro loose
    rw [not_or] at loose
    refine ⟨List.length_pos_iff.2 loose.2, ?_⟩
    intro e reachable watch after summary refreshed
    have undefined : ¬ Numbers e.oscillators := by
      rw [reachable.configured.oscillators]
      exact loose.1
    obtain ⟨bank, ensured, -⟩ := refresh_sets_up refreshed
    calc c.currencies.length = e.currencies.length := by rw [reachable.configured.currencies]
      _ ≤ e.sources.length := by
        rw [sources_eq, List.length_append, List.length_map]
        exact Nat.le_add_right _ _
      _ ≤ e.specs.countP fun spec => !spec.sameAs spec := length_sources_le_countP undefined
      _ ≤ summary.oscillatorsAdded := Bank.countP_le_added ensured

/-- Two currencies. -/
def twoCurrencies : Config.Lookup
  | "CURRENCIES" => some "EUR,USD"
  | "TRIGGER_GRID" => some "10:1"
  | _ => none

/-- Two currencies, and an upper band that is no number. -/
def undefinedBand : Config.Lookup
  | "OVERBOUGHT" => some "nan"
  | name => twoCurrencies name

/-- With two currencies and their pair, one refresh sets up sixteen oscillators, and the next one none. With
a band that is no number, of two refreshes of a new engine the second adds six to the eight of the
first, one for each kind with that band and each currency. -/
theorem oscillatorsAdded_once_undefined :
    (∃ c mid summary later after last, Config.load twoCurrencies = .ok c ∧ Numbers c.oscillators ∧
      ((new c ∅).ingest ⟨"EURUSD", 1.0, 1.0, 0⟩).1.refresh ⟨0, 1⟩ = .ok (mid, summary) ∧
      summary.oscillatorsAdded = 16 ∧ mid.performAll [.ingest ⟨"EURUSD", 1.5, 1.5, 60000⟩] = .ok later ∧
      later.refresh ⟨0, 1⟩ = .ok (after, last) ∧ last.oscillatorsAdded = 0) ∧
    ∃ c first second summary last, Config.load undefinedBand = .ok c ∧
      ¬ (Numbers c.oscillators ∨ c.currencies = []) ∧
      (new c ∅).refresh ⟨0, 1⟩ = .ok (first, summary) ∧ first.refresh ⟨0, 1⟩ = .ok (second, last) ∧
      summary.oscillatorsAdded = 8 ∧ last.oscillatorsAdded = 6 ∧
      c.currencies.length ≤ last.oscillatorsAdded ∧ ¬ second.Registered := by
  constructor
  · have computed : (Config.load twoCurrencies).toOption.any (fun c : Config =>
        decide (Numbers c.oscillators) &&
        (((new c ∅).ingest ⟨"EURUSD", 1.0, 1.0, 0⟩).1.refresh ⟨0, 1⟩).toOption.any fun answer =>
          decide (answer.2.oscillatorsAdded = 16 ∧
            (answer.1.ingest ⟨"EURUSD", 1.5, 1.5, 60000⟩).1.store.instruments
              = answer.1.store.instruments)) = true := by
      decide +kernel
    obtain ⟨c, loaded, rest⟩ := exists_ok_of_any computed
    obtain ⟨numbers, rest⟩ := Bool.and_eq_true_iff.1 rest
    obtain ⟨⟨mid, summary⟩, refreshed, rest⟩ := exists_ok_of_any rest
    obtain ⟨sixteen, instruments⟩ := of_decide_eq_true rest
    have numbers := of_decide_eq_true numbers
    have reachable : Reachable c ((new c ∅).ingest ⟨"EURUSD", 1.0, 1.0, 0⟩).1 :=
      .step (.ingest _) (.new ∅) rfl
    obtain ⟨after, last, again, none_added⟩ := ((oscillatorsAdded_once loaded).1 (.inl numbers) _
      reachable).2 _ mid summary refreshed [.ingest ⟨"EURUSD", 1.5, 1.5, 60000⟩] _ rfl instruments ⟨0, 1⟩
    exact ⟨c, mid, summary, _, after, last, loaded, numbers, refreshed, sixteen, rfl, again, none_added⟩
  · have computed : (Config.load undefinedBand).toOption.any (fun c : Config =>
        decide (¬ (Numbers c.oscillators ∨ c.currencies = [])) &&
        ((new c ∅).refresh ⟨0, 1⟩).toOption.any fun answer =>
          decide (answer.2.oscillatorsAdded = 8) &&
          (answer.1.refresh ⟨0, 1⟩).toOption.any fun again =>
            decide (again.2.oscillatorsAdded = 6 ∧ again.1.bank.size = 14 ∧
              4 * (again.1.currencies.dedup.length + 2 * again.1.store.instruments.length) = 8))
        = true := by
      decide +kernel
    obtain ⟨c, loaded, rest⟩ := exists_ok_of_any computed
    obtain ⟨loose, rest⟩ := Bool.and_eq_true_iff.1 rest
    obtain ⟨⟨first, summary⟩, refreshed, rest⟩ := exists_ok_of_any rest
    obtain ⟨eight, rest⟩ := Bool.and_eq_true_iff.1 rest
    obtain ⟨⟨second, last⟩, again, rest⟩ := exists_ok_of_any rest
    obtain ⟨six, size, bound⟩ := of_decide_eq_true rest
    have loose := of_decide_eq_true loose
    have reachable : Reachable c first :=
      .step (.refresh ⟨0, 1⟩) (.new ∅) (perform_of_refresh refreshed)
    have added := ((oscillatorsAdded_once loaded).2 loose).2 first reachable _ _ _ again
    refine ⟨c, first, second, summary, last, loaded, loose, refreshed, again, of_decide_eq_true eight,
      six, added, ?_⟩
    intro registered
    have size_le := registered.size_le
    rw [size, bound] at size_le
    exact absurd size_le (by decide)

end Engine

end FxPulse
