import FxPulse.Proofs.Engine.Published
import FxPulse.Proofs.Engine.Reach
import FxPulse.Proofs.Number.Undefined
import FxPulse.Proofs.Oscillator.Bank

/-!
# `Proofs/Engine/Prices.lean` — oscillators over prices, from refresh to refresh

At a refresh an engine sets up what is new and lets all oscillators read on. For the oscillators over a
price this comes to the same as if each had been there from the first tick on:

> after a refresh there is an oscillator of every kind over every price, it has read all points accepted
> so far, each of them once, and its output stands under its label (`Follows.refresh`),

provided that what came since the refresh before is still retained. The bands matter, too: bounds that
are no numbers would let the engine set up the same oscillator again and again.
-/

set_option autoImplicit false

namespace FxPulse

open Point (Apart Ordered)

namespace Engine

/-! ## What a refresh reads of a price -/

section Price

variable {e : Engine} {came news : String → List Point} {instrument : String} {b : BankEntry}
  (held : e.store.Holds fun i => came i ++ news i) (forward : 0 ≤ e.store.retention)
  (kept : ∀ p ∈ news instrument, p ∈ (e.store.seriesOf instrument).points.toList)
  (source : b.spec.source = .price instrument) (read : b.HasRead (came instrument))
include held forward kept source read

/-- What has come since the last reading is what is pending now. -/
theorem pending_price : b.pending e.series = news instrument := by
  have series := held.holds instrument
  have points := series.points
  rw [held.retention] at points
  have asked : b.asked e.series = (e.store.read? instrument).map fun series =>
      (b.cursor.map (·.ts)).elim series.points series.since := by
    rw [BankEntry.asked, source]
    cases b.cursor <;> rfl
  rw [BankEntry.pending_eq, asked, held.read?_eq forward instrument]
  by_cases nothing : came instrument ++ news instrument = []
  · rw [if_pos nothing, (List.append_eq_nil_iff.1 nothing).2]
    rfl
  · rw [if_neg nothing, Option.map_some, Option.map_some, Option.getD_some]
    obtain ⟨newest, last⟩ := Option.isSome_iff_exists.1 (List.getLast?_isSome.2 nothing)
    rw [Series.recent, last] at points
    dsimp only at points
    have young : ∀ p ∈ news instrument, newest.ts - e.store.retention ≤ p.ts := by
      intro p hp
      have there := kept p hp
      rw [points, List.mem_filter] at there
      exact of_decide_eq_true there.2
    have sorted := series.sorted
    -- Retention has cut the series at one time and the cursor cuts it at another. What is new lies
    -- behind both, so that the later one is as good as any.
    cases cursor : b.cursor.map (·.ts) with
    | none => exact read.unread_filter sorted young points
    | some ts =>
      have behind : ∀ p ∈ news instrument, max ts (newest.ts - e.store.retention) ≤ p.ts := by
        intro p hp
        have late := read.le_of_cursor cursor sorted p hp
        have age := young p hp
        omega
      refine read.unread_filter sorted behind ?_
      have inner : Ordered (e.store.seriesOf instrument).points.toList := by
        rw [points]
        exact sorted.of_sublist List.filter_sublist
      show (Point.since (e.store.seriesOf instrument).points ts).toList = _
      rw [Point.toList_since inner, points, List.filter_filter]
      refine List.filter_congr fun p _ => ?_
      rw [← Bool.decide_and, decide_eq_decide]
      omega

theorem hasRead_readOn_price : (b.readOn e.series).HasRead (came instrument ++ news instrument) := by
  rw [BankEntry.readOn, pending_price held forward kept source read]
  exact read.takeAll _

end Price

/-! ## What a refresh sets up -/

/-- The instrument quotes one tracked currency in another. -/
def Tracks (e : Engine) (instrument : String) : Prop :=
  ∃ pair, Pair.ofInstrument? instrument = some pair ∧ pair.within e.currencies = true

theorem price_mem_sources_iff {e : Engine} {instrument : String} :
    Source.price instrument ∈ e.sources ↔ instrument ∈ e.store.series ∧ e.Tracks instrument := by
  rw [sources, List.mem_append, List.mem_flatMap]
  constructor
  · rintro (strength | ⟨other, there, mem⟩)
    · simp at strength
    · cases named : Pair.ofInstrument? other with
      | none => simp [named] at mem
      | some pair =>
        by_cases within : pair.within e.currencies = true
        · simp [named, within] at mem
          subst mem
          exact ⟨Std.ExtTreeMap.mem_keys.1 there, pair, named, within⟩
        · simp [named, within] at mem
  · rintro ⟨there, pair, named, within⟩
    refine .inr ⟨instrument, Std.ExtTreeMap.mem_keys.2 there, ?_⟩
    simp [named, within]

theorem mem_specs_iff {e : Engine} {spec : OscillatorSpec} :
    spec ∈ e.specs ↔ spec.source ∈ e.sources ∧ (spec.kind, spec.bands) ∈ kinds e.oscillators := by
  rw [specs, List.mem_flatMap]
  constructor
  · rintro ⟨source, mem, made⟩
    obtain ⟨⟨kind, bands⟩, own, rfl⟩ := List.mem_map.1 made
    exact ⟨mem, own⟩
  · rintro ⟨mem, own⟩
    exact ⟨spec.source, mem, List.mem_map.2 ⟨_, own, rfl⟩⟩

/-- Some entries have, over each price that there is by now, an oscillator of each kind, which has read
what it should. -/
structure Covers (e : Engine) (entries : List BankEntry) (present read : String → List Point) :
    Prop where
  known : ∀ b ∈ entries, (b.spec.kind, b.spec.bands) ∈ kinds e.oscillators
  reads : ∀ b ∈ entries, ∀ i, b.spec.source = .price i →
    e.Tracks i ∧ present i ≠ [] ∧ b.HasRead (read i)
  covers : ∀ i, e.Tracks i → present i ≠ [] → ∀ k ∈ kinds e.oscillators,
    ∃ b ∈ entries, b.spec = ⟨.price i, k.1, k.2⟩

/-- The bounds of all bands are numbers. -/
def Numbers (o : OscillatorSettings) : Prop := ∀ k ∈ kinds o, k.2.sameAs k.2 = true

instance (o : OscillatorSettings) : Decidable (Numbers o) :=
  inferInstanceAs (Decidable (∀ k ∈ kinds o, k.2.sameAs k.2 = true))

section Refresh

variable {e : Engine} {came news : String → List Point}

/-- An entry that is held is one with the very oscillator. -/
theorem exists_of_holds {entries : List BankEntry}
    (known : ∀ b ∈ entries, (b.spec.kind, b.spec.bands) ∈ kinds e.oscillators) {source : Source}
    {k : OscillatorKind × Bands} (own : k ∈ kinds e.oscillators)
    (held : (Bank.mk entries).holds ⟨source, k.1, k.2⟩ = true) :
    ∃ b ∈ entries, b.spec = ⟨source, k.1, k.2⟩ := by
  obtain ⟨b, mem, same⟩ := List.any_eq_true.1 held
  simp only [OscillatorSpec.sameAs, Bool.and_eq_true, beq_iff_eq] at same
  obtain ⟨⟨sameSource, sameKind⟩, -⟩ := same
  have letters : b.spec.kind.letter = k.1.letter := congrArg _ sameKind
  have both := kinds_injective (known b mem) own letters
  refine ⟨b, mem, ?_⟩
  rw [← both, ← sameSource]

/-- What is set up are oscillators over prices that are new. -/
theorem Covers.ensureAll {bank : Bank} {added : Nat} (covers : Covers e e.bank.entries came came)
    (held : e.store.Holds fun i => came i ++ news i) (numbers : Numbers e.oscillators)
    (h : e.bank.ensureAll e.specs = .ok (bank, added)) :
    Covers e bank.entries (fun i => came i ++ news i) came ∧
      ∀ b ∈ e.bank.entries, b ∈ bank.entries := by
  obtain ⟨⟨entries, rfl, fresh⟩, all⟩ := Bank.ensureAll_eq_ok h
  have known : ∀ b ∈ e.bank.entries ++ entries, (b.spec.kind, b.spec.bands) ∈ kinds e.oscillators := by
    intro b hb
    rcases List.mem_append.1 hb with old | new
    · exact covers.known b old
    · obtain ⟨spec, mem, -, rfl⟩ := fresh b new
      exact (mem_specs_iff.1 mem).2
  refine ⟨⟨known, ?_, ?_⟩, fun b hb => List.mem_append_left _ hb⟩
  · intro b hb i price
    rcases List.mem_append.1 hb with old | new
    · obtain ⟨tracks, some_came, read⟩ := covers.reads b old i price
      exact ⟨tracks, by simp [some_came], read⟩
    · obtain ⟨spec, mem, missing, rfl⟩ := fresh b new
      obtain ⟨source, own⟩ := mem_specs_iff.1 mem
      rw [BankEntry.spec_start] at price
      rw [price] at source
      obtain ⟨there, tracks⟩ := price_mem_sources_iff.1 source
      refine ⟨tracks, (held.listed i).1 there, ?_⟩
      -- Had the price been there before, the oscillator would have been set up then.
      have nothing : came i = [] := by
        by_contra some_came
        obtain ⟨other, mem, same⟩ := covers.covers i tracks some_came _ own
        have again : e.bank.holds spec = true := by
          refine List.any_eq_true.2 ⟨other, mem, ?_⟩
          have bands := numbers _ own
          simp [OscillatorSpec.sameAs, same, price, bands]
        rw [again] at missing
        cases missing
      rw [nothing]
      exact BankEntry.hasRead_start spec
  · intro i tracks some_point k own
    refine exists_of_holds known own (all _ (mem_specs_iff.2 ⟨?_, own⟩) ?_)
    · exact price_mem_sources_iff.2 ⟨(held.listed i).2 some_point, tracks⟩
    · simp [OscillatorSpec.sameAs, numbers _ own]

/-- All oscillators over prices read on. -/
theorem Covers.refresh {entries : List BankEntry}
    (covers : Covers e entries (fun i => came i ++ news i) came)
    (held : e.store.Holds fun i => came i ++ news i) (forward : 0 ≤ e.store.retention)
    (kept : ∀ i, ∀ p ∈ news i, p ∈ (e.store.seriesOf i).points.toList) :
    Covers e (entries.map (·.readOn e.series)) (fun i => came i ++ news i)
      fun i => came i ++ news i where
  known b hb := by
    obtain ⟨old, mem, rfl⟩ := List.mem_map.1 hb
    rw [BankEntry.spec_readOn]
    exact covers.known old mem
  reads b hb i price := by
    obtain ⟨old, mem, rfl⟩ := List.mem_map.1 hb
    rw [BankEntry.spec_readOn] at price
    obtain ⟨tracks, some_point, read⟩ := covers.reads old mem i price
    exact ⟨tracks, some_point, hasRead_readOn_price held forward (kept i) price read⟩
  covers i tracks some_point k own := by
    obtain ⟨old, mem, same⟩ := covers.covers i tracks some_point k own
    exact ⟨_, List.mem_map_of_mem mem, by rw [BankEntry.spec_readOn, same]⟩

/-! ## What a refresh publishes -/

/-- The engine has the oscillators over prices that it should, and publishes them. -/
structure Follows (e : Engine) (came : String → List Point) : Prop where
  covers : Covers e e.bank.entries came came
  shows : ∀ b ∈ e.bank.entries, ∀ i, b.spec.source = .price i →
    e.published[b.spec.label]? = some b.shown
  shown : ∀ label p, e.published[label]? = some p →
    ∃ b ∈ e.bank.entries, b.spec.label = label ∧ p = b.shown

theorem follows_new (c : Config) (table : Table) : (new c table).Follows fun _ => [] := by
  have nothing : (new c table).bank.entries = [] := rfl
  have unpublished : (new c table).published = ∅ := rfl
  constructor
  · constructor <;> simp [nothing]
  · simp [nothing]
  · simp [unpublished]

/-- Only what an engine has set up and published matters. -/
theorem Follows.congr {other : Engine} (follows : e.Follows came) (bank : other.bank = e.bank)
    (published : other.published = e.published) (oscillators : other.oscillators = e.oscillators)
    (currencies : other.currencies = e.currencies) : other.Follows came := by
  obtain ⟨⟨known, reads, covers⟩, shows, shown⟩ := follows
  constructor
  · constructor
    · rwa [bank, oscillators]
    · simpa only [bank, Tracks, currencies] using reads
    · simpa only [bank, Tracks, currencies, oscillators] using covers
  · rwa [bank, published]
  · rwa [bank, published]

/-- Between refreshes nothing is read or published. -/
theorem Follows.quiet {after : Engine} {action : Action} (follows : e.Follows came)
    (quiet : action.isRefresh = false) (h : e.perform action = .ok after) : after.Follows came := by
  cases action with
  | refresh watch => cases quiet
  | setTable table =>
    obtain rfl := Except.ok.inj h
    exact follows.congr rfl rfl rfl rfl
  | ingest t =>
    obtain rfl := Except.ok.inj h
    rcases e.ingest_eq t with ⟨store, point, -, eq⟩ | eq
    all_goals
      rw [eq]
      exact follows.congr rfl rfl rfl rfl

/-- Two oscillators over prices with one label are the same, and so is what they have read. -/
theorem Covers.shown_eq {entries : List BankEntry} (covers : Covers e entries came came)
    {b other : BankEntry} (hb : b ∈ entries) (hother : other ∈ entries) {i : String}
    (price : b.spec.source = .price i) (label : other.spec.label = b.spec.label) :
    other.shown = b.shown := by
  have own : b.spec = ⟨.price i, b.spec.kind, b.spec.bands⟩ := by rw [← price]
  have same : other.spec = b.spec := by
    rw [own] at label ⊢
    exact label_eq_price (covers.known other hother) (covers.known b hb) label
  obtain ⟨-, -, read⟩ := covers.reads b hb i price
  obtain ⟨-, -, readToo⟩ := covers.reads other hother i (by rw [same, price])
  have outputs : other.output = b.output := by
    have states := readToo.state.trans (same ▸ read.state.symm)
    exact congrArg Prod.snd states
  rw [BankEntry.shown, BankEntry.shown, same, outputs]

/-- Oscillators are set up, read on, and are published. -/
theorem Follows.readOn {bank : Bank} {added : Nat} (follows : e.Follows came)
    (held : e.store.Holds fun i => came i ++ news i) (forward : 0 ≤ e.store.retention)
    (kept : ∀ i, ∀ p ∈ news i, p ∈ (e.store.seriesOf i).points.toList)
    (numbers : Numbers e.oscillators) (ensured : e.bank.ensureAll e.specs = .ok (bank, added)) :
    Follows { e with
      bank := (bank.refresh e.series).1
      published := (bank.refresh e.series).1.readings.foldl publish e.published }
      fun i => came i ++ news i := by
  obtain ⟨prepared, stays⟩ := follows.covers.ensureAll held numbers ensured
  have covers := prepared.refresh held forward kept
  rw [Bank.refresh_eq]
  constructor
  · exact ⟨covers.known, covers.reads, covers.covers⟩
  · intro b hb i price
    obtain ⟨other, hother, label, published⟩ := exists_getElem?_publish e.published hb
    exact published.trans (congrArg some (covers.shown_eq hb hother price label))
  · intro label p published
    rcases of_getElem?_publish published with now | ⟨none_now, earlier⟩
    · exact now
    · -- Who was published before has an entry, and its entry is still there.
      obtain ⟨b, hb, own, -⟩ := follows.shown label p earlier
      refine absurd ?_ (none_now _ (List.mem_map_of_mem (stays b hb)))
      rw [BankEntry.spec_readOn]
      exact own

/-- **What a refresh leaves.** -/
theorem Follows.refresh {after : Engine} {watch : Stopwatch} {summary : RefreshSummary}
    (follows : e.Follows came) (held : e.store.Holds fun i => came i ++ news i)
    (forward : 0 ≤ e.store.retention)
    (kept : ∀ i, ∀ p ∈ news i, p ∈ (e.store.seriesOf i).points.toList)
    (numbers : Numbers e.oscillators) (h : e.refresh watch = .ok (after, summary)) :
    after.Follows fun i => came i ++ news i := by
  obtain ⟨strengthHistory, sampledAt, _, _, _, _, -, ensured, -, rfl, -⟩ := refresh_eq_ok h
  have before : Follows { e with strengthHistory, sampledAt } came := follows.congr rfl rfl rfl rfl
  exact (before.readOn held forward kept numbers ensured).congr rfl rfl rfl rfl

end Refresh

end Engine

end FxPulse
