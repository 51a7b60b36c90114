import FxPulse.Proofs.Engine.Registered
import FxPulse.Proofs.Strength.Tracked
import Mathlib.Data.List.ProdSigma

/-!
# `Proofs/Engine/Mirrored.lean` — what is published mirrors the bank

A bank is a list of oscillators, and what is published is a table of outputs under labels. The two could
come apart: two oscillators may have one label, or a label may outlive its oscillator. Neither happens,
as labels are different texts (`Source.text_injective`, `eq_of_label_of_mem_specs`) and an oscillator that
is there stays there, so at any time the table shows just what the bank holds
(`Reachable.published_iff`).

> After a refresh the bank has one oscillator of each kind over each source that the configuration and
> the instruments call for, and the published outputs are theirs, one for each, by label
> (`published_mirrored`).

Instruments with several names for one pair, and currencies that are named twice, are no exception.
-/

set_option autoImplicit false

namespace FxPulse

/-! ## Texts of sources -/

/-- A source as engines ask for it: strengths are over one window, and the currencies of a difference have
three letters each. -/
def Source.Regular (window : String) : Source → Prop
  | .price _ => True
  | .strength _ own => own = window
  | .differential base quote own => base.length = 3 ∧ quote.length = 3 ∧ own = window

/-- Different sources have different texts. A currency can be any text, and only the one window behind it
keeps strengths apart. -/
theorem Source.text_injective {window : String} {a b : Source} (ha : a.Regular window)
    (hb : b.Regular window) (h : a.text = b.text) : a = b := by
  have chars := congrArg String.toList h
  cases a with
  | price instrument => exact (text_eq_price h.symm).symm
  | strength currency own =>
    obtain rfl := ha
    cases b with
    | price instrument => exact text_eq_price h
    | strength other _ =>
      obtain rfl := hb
      simp only [text, String.toList_append, List.append_cancel_left_eq,
        List.append_cancel_right_eq] at chars
      rw [String.toList_inj.1 chars]
    | differential => simp [text, String.toList_append] at chars
  | differential base quote own =>
    obtain ⟨baseLength, quoteLength, rfl⟩ := ha
    cases b with
    | price instrument => exact text_eq_price h
    | strength => simp [text, String.toList_append] at chars
    | differential otherBase otherQuote _ =>
      obtain ⟨otherBaseLength, otherQuoteLength, rfl⟩ := hb
      simp only [text, String.toList_append, List.append_assoc, List.append_cancel_left_eq] at chars
      have lengths : base.toList.length = otherBase.toList.length := by
        rw [String.length_toList, String.length_toList, baseLength, otherBaseLength]
      obtain ⟨bases, rest⟩ := List.append_inj chars lengths
      rw [List.append_cancel_left_eq, List.append_cancel_right_eq] at rest
      rw [String.toList_inj.1 bases, String.toList_inj.1 rest]

/-- The currencies in the name of an instrument have three letters each. -/
theorem Pair.length_of_ofInstrument? {instrument : String} {pair : Pair}
    (h : ofInstrument? instrument = some pair) : pair.base.length = 3 ∧ pair.quote.length = 3 := by
  unfold ofInstrument? at h
  dsimp only at h
  split at h
  · rename_i six
    obtain rfl := Option.some.inj h
    simp only [← String.length_toList, String.toList_ofList, List.length_drop, List.length_take] at six ⊢
    omega
  · cases h

/-! ## What is called for -/

/-- The sources that a configuration follows, each of them once: the strengths of its currencies, the
prices of instruments that quote one of them in another, and the differences of the pairs quoted. -/
def Config.followed (c : Config) (instruments : List String) : List Source :=
  let pairs := (instruments.filterMap Pair.ofInstrument?).filter (·.within c.currencies)
  (c.currencies.dedup.map fun currency => .strength currency c.oscillators.window)
    ++ (instruments.filter (isTracked c.currencies)).map .price
    ++ pairs.dedup.map fun pair => .differential pair.base pair.quote c.oscillators.window

/-- The kinds of oscillators over each source. -/
def OscillatorSettings.transforms (o : OscillatorSettings) : List OscillatorKind :=
  [.rsi o.rsiPeriod, .stochastic o.stochasticK o.stochasticD, .zScore o.zScoreWindow,
    .percentRank o.rankWindow]

theorem OscillatorSettings.nodup_transforms (o : OscillatorSettings) : o.transforms.Nodup := by
  simp [transforms]

theorem Config.nodup_followed (c : Config) {instruments : List String} (once : instruments.Nodup) :
    (c.followed instruments).Nodup := by
  have strengths : (c.currencies.dedup.map fun currency =>
      Source.strength currency c.oscillators.window).Nodup :=
    c.currencies.nodup_dedup.map fun _ _ same => (Source.strength.inj same).1
  have prices : ((instruments.filter (isTracked c.currencies)).map Source.price).Nodup :=
    (once.filter _).map fun _ _ same => Source.price.inj same
  have differences : ∀ pairs : List Pair, (pairs.dedup.map fun pair =>
      Source.differential pair.base pair.quote c.oscillators.window).Nodup := by
    refine fun pairs => pairs.nodup_dedup.map ?_
    rintro ⟨base, quote⟩ ⟨otherBase, otherQuote⟩ same
    obtain ⟨rfl, rfl, -⟩ := Source.differential.inj same
    rfl
  refine (strengths.append prices ?_).append (differences _) ?_
  all_goals
    rw [List.disjoint_left]
    simp only [List.mem_append, List.mem_map]
  · rintro _ ⟨_, -, rfl⟩ ⟨_, -, same⟩
    cases same
  · rintro _ (⟨_, -, rfl⟩ | ⟨_, -, rfl⟩) ⟨_, -, same⟩
    · cases same
    · cases same

theorem Config.mem_followed_iff {c : Config} {instruments : List String} {source : Source} :
    source ∈ c.followed instruments ↔
      (∃ currency ∈ c.currencies, source = .strength currency c.oscillators.window) ∨
      ∃ instrument ∈ instruments, ∃ pair, Pair.ofInstrument? instrument = some pair ∧
        pair.within c.currencies = true ∧ (source = .price instrument ∨
          source = .differential pair.base pair.quote c.oscillators.window) := by
  simp only [followed, List.mem_append, List.mem_map, List.mem_dedup, List.mem_filter,
    List.mem_filterMap, isTracked_iff, or_assoc]
  constructor
  · rintro (⟨currency, tracked, rfl⟩ | ⟨instrument, ⟨known, pair, named, within⟩, rfl⟩ |
      ⟨pair, ⟨⟨instrument, known, named⟩, within⟩, rfl⟩)
    · exact .inl ⟨currency, tracked, rfl⟩
    · exact .inr ⟨instrument, known, pair, named, within, .inl rfl⟩
    · exact .inr ⟨instrument, known, pair, named, within, .inr rfl⟩
  · rintro (⟨currency, tracked, rfl⟩ | ⟨instrument, known, pair, named, within, rfl | rfl⟩)
    · exact .inl ⟨currency, tracked, rfl⟩
    · exact .inr (.inl ⟨instrument, ⟨known, pair, named, within⟩, rfl⟩)
    · exact .inr (.inr ⟨pair, ⟨⟨instrument, known, named⟩, within⟩, rfl⟩)

namespace Engine

variable {c : Config} {e : Engine}

theorem mem_followed_iff (configured : e.Configured c) {source : Source} :
    source ∈ c.followed e.store.instruments ↔ source ∈ e.sources := by
  rw [Config.mem_followed_iff, mem_sources_iff, configured.currencies, configured.oscillators]
  simp only [mem_pairSources_iff, configured.currencies, configured.oscillators]
  refine or_congr_right (exists_congr fun instrument => and_congr_left fun _ => ?_)
  exact Std.ExtTreeMap.mem_keys

/-- What a configuration calls for, an engine that has all it asks for has, each of it once. -/
theorem Reachable.perm_followed (h : Reachable c e) (firm : Numbers c.oscillators ∨ c.currencies = [])
    (equipped : e.Equipped) :
    (e.bank.entries.map fun b => (b.spec.source, b.spec.kind)).Perm
      (c.followed e.store.instruments ×ˢ c.oscillators.transforms) := by
  have known : ∀ b ∈ e.bank.entries, b.spec ∈ e.specs :=
    fun b hb => h.asked b.spec (List.mem_map_of_mem hb)
  have twins : (c.followed e.store.instruments ×ˢ c.oscillators.transforms).Nodup :=
    (c.nodup_followed Std.ExtTreeMap.nodup_keys).product c.oscillators.nodup_transforms
  refine (List.perm_ext_iff_of_nodup (h.registered firm).once twins).2 ?_
  have transforms : c.oscillators.transforms = (kinds e.oscillators).map Prod.fst := by
    rw [h.configured.oscillators]
    rfl
  rintro ⟨source, kind⟩
  rw [List.mem_product, mem_followed_iff h.configured, transforms, List.mem_map, List.mem_map]
  constructor
  · rintro ⟨b, hb, same⟩
    obtain ⟨rfl, rfl⟩ := Prod.mk.inj same
    obtain ⟨followed, own⟩ := mem_specs_iff.1 (known b hb)
    exact ⟨followed, _, own, rfl⟩
  · rintro ⟨followed, k, own, rfl⟩
    have held := equipped ⟨source, k.1, k.2⟩ (mem_specs_iff.2 ⟨followed, own⟩)
    obtain ⟨b, hb, spec⟩ := exists_of_holds (e := e)
      (fun b hb => (mem_specs_iff.1 (known b hb)).2) own held
    exact ⟨b, hb, by rw [spec]⟩

/-! ## Labels -/

theorem regular_of_mem_sources {source : Source} (h : source ∈ e.sources) :
    source.Regular e.oscillators.window := by
  rcases mem_sources_iff.1 h with ⟨currency, -, rfl⟩ | ⟨instrument, -, mem⟩
  · exact rfl
  · obtain ⟨pair, named, -, rfl | rfl⟩ := mem_pairSources_iff.1 mem
    · trivial
    · obtain ⟨base, quote⟩ := Pair.length_of_ofInstrument? named
      exact ⟨base, quote, rfl⟩

/-- Of what an engine asks for, no two have one label. -/
theorem eq_of_label_of_mem_specs {a b : OscillatorSpec} (ha : a ∈ e.specs) (hb : b ∈ e.specs)
    (h : a.label = b.label) : a = b := by
  obtain ⟨followed, own⟩ := mem_specs_iff.1 ha
  obtain ⟨otherFollowed, otherOwn⟩ := mem_specs_iff.1 hb
  obtain ⟨kind, bands, texts⟩ := eq_of_label own otherOwn h
  have source := Source.text_injective (regular_of_mem_sources followed)
    (regular_of_mem_sources otherFollowed) texts
  cases a
  cases b
  cases kind
  cases bands
  cases source
  rfl

section Reachable

variable (h : Reachable c e) (firm : Numbers c.oscillators ∨ c.currencies = [])
include h firm

theorem Reachable.nodup_labels : (e.bank.entries.map fun b => b.spec.label).Nodup := by
  have once := (h.once firm).map_on (f := OscillatorSpec.label) fun a ha b hb same =>
    eq_of_label_of_mem_specs (h.asked a ha) (h.asked b hb) same
  rwa [List.map_map] at once

/-! ## What is shown under them -/

/-- At any time a label shows the entry of the bank that has it. -/
theorem Reachable.published_iff {label : String} {p : PublishedOscillator} :
    e.published[label]? = some p ↔ ∃ b ∈ e.bank.entries, b.spec.label = label ∧ p = b.shown := by
  induction h with
  | new table =>
    have unpublished : (∅ : Std.ExtTreeMap String PublishedOscillator)[label]? = none :=
      Std.ExtTreeMap.getElem?_empty
    constructor
    · intro shown
      cases unpublished.symm.trans shown
    · rintro ⟨b, hb, -⟩
      cases hb
  | @step e after action before h ih =>
    have labels := (before.step action h).nodup_labels firm
    cases action with
    | ingest t =>
      obtain rfl := Except.ok.inj h
      rcases e.ingest_eq t with ⟨store, point, -, eq⟩ | eq
      all_goals
        rw [eq]
        exact ih
    | setTable table =>
      obtain rfl := Except.ok.inj h
      exact ih
    | refresh watch =>
      obtain ⟨summary, refreshed⟩ := perform_refresh_eq_ok h
      obtain ⟨_, _, _, bank, _, _, -, ensured, -, rfl, -⟩ := refresh_eq_ok refreshed
      constructor
      · intro shown
        rcases of_getElem?_publish shown with entry | ⟨gone, old⟩
        · exact entry
        · -- What had the label before is still there, and still has it.
          obtain ⟨b, hb, own, -⟩ := ih.1 old
          obtain ⟨⟨entries, rfl, -⟩, -⟩ := Bank.ensureAll_eq_ok ensured
          have there := List.mem_append_left (entries.map (·.spec))
            (List.mem_map_of_mem (f := BankEntry.spec) hb)
          rw [← List.map_append, ← Bank.specs_refresh ⟨e.bank.entries ++ entries⟩] at there
          obtain ⟨still, hstill, same⟩ := List.mem_map.1 there
          exact absurd (same ▸ own) (gone still hstill)
      · rintro ⟨b, hb, rfl, rfl⟩
        obtain ⟨other, hother, same, shown⟩ := exists_getElem?_publish e.published hb
        obtain rfl := List.inj_on_of_nodup_map labels hother hb same
        exact shown

theorem Reachable.labels_eq_keys : e.publishedOscillators.map (·.label) = e.published.keys := by
  rw [publishedOscillators, values_eq_map_snd, List.map_map, ← Std.ExtTreeMap.map_fst_toList_eq_keys]
  refine List.map_congr_left fun shown mem => ?_
  obtain ⟨b, -, own, same⟩ :=
    (h.published_iff firm).1 (Std.ExtTreeMap.mem_toList_iff_getElem?_eq_some.1 mem)
  rw [Function.comp_apply, same]
  exact own

theorem Reachable.sorted_labels : (e.publishedOscillators.map (·.label)).Pairwise (· < ·) := by
  rw [h.labels_eq_keys firm]
  exact sorted_keys e.published

/-- The published outputs are those of the bank. -/
theorem Reachable.perm_shown : e.publishedOscillators.Perm (e.bank.entries.map (·.shown)) := by
  have distinct : e.publishedOscillators.Nodup :=
    .of_map PublishedOscillator.label ((h.sorted_labels firm).imp fun order => ne_of_lt order)
  have entries : (e.bank.entries.map (·.shown)).Nodup := by
    refine .of_map PublishedOscillator.label ?_
    rw [List.map_map]
    exact h.nodup_labels firm
  refine (List.perm_ext_iff_of_nodup distinct entries).2 fun p => ?_
  rw [publishedOscillators, values_eq_map_snd, List.mem_map, List.mem_map]
  constructor
  · rintro ⟨⟨label, p⟩, mem, rfl⟩
    obtain ⟨b, hb, -, same⟩ :=
      (h.published_iff firm).1 (Std.ExtTreeMap.mem_toList_iff_getElem?_eq_some.1 mem)
    exact ⟨b, hb, same.symm⟩
  · rintro ⟨b, hb, rfl⟩
    have shown := (h.published_iff firm).2 ⟨b, hb, rfl, rfl⟩
    exact ⟨(b.spec.label, b.shown), Std.ExtTreeMap.mem_toList_iff_getElem?_eq_some.2 shown, rfl⟩

end Reachable

/-- The bank has one oscillator of each kind over each source that is called for, each with a label of its
own, and what is published are their outputs, one for each, in the order of their labels. -/
structure Mirrored (c : Config) (e : Engine) : Prop where
  once : (c.followed e.store.instruments ×ˢ c.oscillators.transforms).Nodup
  covers : (e.bank.entries.map fun b => (b.spec.source, b.spec.kind)).Perm
    (c.followed e.store.instruments ×ˢ c.oscillators.transforms)
  labels : (e.bank.entries.map fun b => b.spec.label).Nodup
  shown : e.publishedOscillators.Perm (e.bank.entries.map (·.shown))
  sorted : (e.publishedOscillators.map (·.label)).Pairwise (· < ·)

/-- **What is published mirrors the bank.** If the bounds of all bands are numbers, any run of an accepted
configuration that ends with a refresh ends, as long as the oscillators can be stored, and then the bank
has one oscillator of each kind over each source that is called for, and their outputs are what is
published. -/
theorem published_mirrored {lookup : Config.Lookup} {c : Config} (loaded : Config.load lookup = .ok c)
    (overbought : c.oscillators.bands.overbought.isNaN = false)
    (oversold : c.oscillators.bands.oversold.isNaN = false)
    (zScore : c.oscillators.zScoreBand.isNaN = false) (table : Table) (actions : List Action)
    (watch : Stopwatch) :
    (Storable c.oscillators →
      ∃ e, (new c table).performAll (actions ++ [.refresh watch]) = .ok e) ∧
    ∀ e, (new c table).performAll (actions ++ [.refresh watch]) = .ok e → Mirrored c e := by
  have firm : Numbers c.oscillators ∨ c.currencies = [] :=
    .inl (numbers_of_isNaN overbought oversold zScore)
  constructor
  · intro storable
    exact exists_performAll storable (Config.load_proper loaded) _
  · intro e ran
    have reachable : Reachable c e := (Reachable.new table).performAll ran
    obtain ⟨mid, before, last⟩ := performAll_concat.1 ran
    obtain ⟨summary, refreshed⟩ := perform_refresh_eq_ok last
    have equipped := equipped_of_refresh
      ((((Reachable.new table).performAll before).firm_iff).2 firm) refreshed
    exact ⟨(c.nodup_followed Std.ExtTreeMap.nodup_keys).product c.oscillators.nodup_transforms,
      reachable.perm_followed firm equipped, reachable.nodup_labels firm, reachable.perm_shown firm,
      reachable.sorted_labels firm⟩

/-- One currency named twice, and one named once. -/
def repeatedCurrency : Config.Lookup
  | "CURRENCIES" => some "eur,EUR,USD"
  | "TRIGGER_GRID" => some "10:1"
  | _ => none

/-- Two names of one pair, and an instrument that is not tracked. -/
def euroNames : List Action :=
  [.ingest ⟨"EURUSD", 1.0, 1.0, 0⟩, .refresh ⟨0, 1⟩, .ingest ⟨"EUR/USD", 1.5, 1.5, 60000⟩,
    .ingest ⟨"XAUUSD", 2000.0, 2000.0, 60000⟩]

/-- Two strengths, two prices and one difference make twenty oscillators. -/
theorem published_mirrored_names : ∃ c e, Config.load repeatedCurrency = .ok c ∧
    c.oscillators.bands.overbought.isNaN = false ∧ c.oscillators.bands.oversold.isNaN = false ∧
    c.oscillators.zScoreBand.isNaN = false ∧ Storable c.oscillators ∧
    (new c ∅).performAll (euroNames ++ [.refresh ⟨1000, 1⟩]) = .ok e ∧
    c.followed e.store.instruments = [.strength "EUR" "1h", .strength "USD" "1h", .price "EUR/USD",
      .price "EURUSD", .differential "EUR" "USD" "1h"] ∧
    e.publishedOscillators.length = 20 ∧ Mirrored c e := by
  have computed : (Config.load repeatedCurrency).toOption.any (fun c : Config =>
      decide ((c.oscillators.bands.overbought.isNaN = false ∧
        c.oscillators.bands.oversold.isNaN = false ∧ c.oscillators.zScoreBand.isNaN = false) ∧
        (∀ k ∈ kinds c.oscillators, ∀ n ∈ k.1.capacities, n ≤ Ring.greatestCapacity) ∧
        c.currencies = ["EUR", "EUR", "USD"] ∧ c.oscillators.window = "1h" ∧
        ((new c ∅).store.addAll (ticksOf euroNames)).instruments = ["EUR/USD", "EURUSD", "XAUUSD"]))
      = true := by
    decide +kernel
  obtain ⟨c, loaded, rest⟩ := exists_ok_of_any computed
  obtain ⟨⟨overbought, oversold, zScore⟩, storable, currencies, window, instruments⟩ :=
    of_decide_eq_true rest
  obtain ⟨runs, mirrors⟩ :=
    published_mirrored loaded overbought oversold zScore ∅ euroNames ⟨1000, 1⟩
  obtain ⟨e, ran⟩ := runs storable
  have mirrored := mirrors e ran
  have ticks : ticksOf (euroNames ++ [.refresh ⟨1000, 1⟩]) = ticksOf euroNames := rfl
  have followed : c.followed e.store.instruments = [.strength "EUR" "1h", .strength "USD" "1h",
      .price "EUR/USD", .price "EURUSD", .differential "EUR" "USD" "1h"] := by
    rw [(performAll_advances ran).store, ticks, instruments, Config.followed, currencies, window]
    decide +kernel
  have twenty : e.publishedOscillators.length = 20 := by
    have covered := mirrored.covers.length_eq
    rw [followed, List.length_product, List.length_map] at covered
    rw [mirrored.shown.length_eq, List.length_map, covered]
    rfl
  exact ⟨c, e, loaded, overbought, oversold, zScore, storable, ran, followed, twenty, mirrored⟩

end Engine

end FxPulse
