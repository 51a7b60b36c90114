import FxPulse.Proofs.Engine.Reach

/-!
# `Proofs/Engine/Since.lean` — the end of a source and the whole of it

An oscillator that has read its source up to a time asks for the points from there on. Prices and
strengths give it exactly those of the whole. A difference does not always: it is taken between the
ends of its two series, and where the quote has no sample from that time on, a sample of the base has
nothing left to be set against.

> The end of a source misses just the points of a difference whose quote was sampled before the time.

It never has a point that the whole has not, and never another order. What makes it miss one is a quote
that falls behind its base, as when a pair is silent for longer than its history reaches.
-/

set_option autoImplicit false

namespace FxPulse

/-- The points from a time on among what is given. Nothing given is no points. -/
def pointsFrom (ts : Int) (given : Option (Array Point)) : List Point :=
  (given.getD #[]).toList.filter fun p => ts ≤ p.ts

/-! ## Differences -/

/-- The point of a difference at a sample of the base. -/
def differenceAt? (quote : Array Point) (b : Point) : Option Point :=
  (Point.covering? quote b.ts).map fun q => ⟨b.ts, b.value - q.value⟩

theorem toList_differences (base quote : Array Point) :
    (differences base quote).toList = base.toList.filterMap (differenceAt? quote) :=
  Array.toList_filterMap

/-- Without quote there is no difference. -/
theorem differences_empty (base : Array Point) : differences base #[] = #[] := by
  rw [← Array.toList_inj, toList_differences]
  exact List.filterMap_eq_nil_iff.2 fun b _ => rfl

/-- The sample of the quote that belongs to a sample of the base was taken before a time: there is one
not after the base's, and each such is before that time. -/
def CarriedFrom (ts : Int) (quote : Array Point) (b : Point) : Prop :=
  (∃ q ∈ quote.toList, q.ts ≤ b.ts) ∧ ∀ q ∈ quote.toList, q.ts ≤ b.ts → q.ts < ts

/-- It is the covering sample that belongs to it. -/
theorem carriedFrom_iff {quote : Array Point} (sorted : Point.Ordered quote.toList) {ts : Int}
    {b : Point} :
    CarriedFrom ts quote b ↔ ∃ q, Point.covering? quote b.ts = some q ∧ q.ts < ts := by
  have earlier : Point.Ordered (quote.toList.filter fun q => q.ts ≤ b.ts) :=
    sorted.of_sublist List.filter_sublist
  have mem : ∀ q, q ∈ (quote.toList.filter fun q => q.ts ≤ b.ts) ↔ q ∈ quote.toList ∧ q.ts ≤ b.ts := by
    simp
  rw [Point.covering?_eq sorted]
  constructor
  · rintro ⟨⟨q, hq, hqb⟩, before⟩
    obtain ⟨last, hlast⟩ := Option.isSome_iff_exists.1
      (List.getLast?_isSome.2 (List.ne_nil_of_mem ((mem q).2 ⟨hq, hqb⟩)))
    obtain ⟨held, hb⟩ := (mem last).1 (List.mem_of_getLast? hlast)
    exact ⟨last, hlast, before last held hb⟩
  · rintro ⟨last, hlast, before⟩
    obtain ⟨held, hb⟩ := (mem last).1 (List.mem_of_getLast? hlast)
    refine ⟨⟨last, held, hb⟩, fun q hq hqb => ?_⟩
    have newest := earlier.le_getLast hlast q ((mem q).2 ⟨hq, hqb⟩)
    omega

/-- The end of the quote has the same difference for a sample of the base, or none. -/
theorem differenceAt?_since {quote : Array Point} (sorted : Point.Ordered quote.toList) (ts : Int)
    (b : Point) :
    differenceAt? (Point.since quote ts) b = none ∧ CarriedFrom ts quote b ∧
        (differenceAt? quote b).isSome ∨
      differenceAt? (Point.since quote ts) b = differenceAt? quote b ∧ ¬ CarriedFrom ts quote b := by
  rw [carriedFrom_iff sorted, differenceAt?, differenceAt?, Point.covering?_since sorted]
  cases h : Point.covering? quote b.ts with
  | none => exact .inr ⟨rfl, by simp⟩
  | some q =>
    rw [Option.filter_some]
    by_cases late : ts ≤ q.ts
    · rw [if_pos (decide_eq_true late)]
      refine .inr ⟨rfl, ?_⟩
      rintro ⟨other, same, early⟩
      cases same
      omega
    · rw [if_neg (by simpa using late)]
      exact .inl ⟨rfl, ⟨q, rfl, by omega⟩, rfl⟩

/-- The points of a difference from a time on are taken at the samples of the base from there on. -/
theorem filter_differences (base quote : Array Point) (ts : Int) :
    (differences base quote).toList.filter (fun p => ts ≤ p.ts)
      = (base.toList.filter fun b => ts ≤ b.ts).filterMap (differenceAt? quote) := by
  rw [toList_differences, List.filter_filterMap, List.filterMap_filter]
  refine List.filterMap_congr fun b _ => ?_
  unfold differenceAt?
  cases Point.covering? quote b.ts with
  | none => simp
  | some q => exact Option.filter_some

namespace Engine

/-- The samples of a strength that are kept. -/
def strengthSamples (e : Engine) (currency window : String) : Array Point :=
  (e.strengthPoints? currency window none).getD #[]

theorem Orderly.strengthSamples {e : Engine} (orderly : e.Orderly) (currency window : String) :
    Point.Ordered (e.strengthSamples currency window).toList := by
  unfold Engine.strengthSamples strengthPoints?
  cases h : e.strengthHistory.read? ⟨currency, window⟩ with
  | none => exact List.Pairwise.nil
  | some series => exact StrengthHistory.read?_ordered orderly.strengths h

/-- Asking for the end of a strength gives the end of its samples. -/
theorem strengthPoints?_getD (e : Engine) (currency window : String) (ts : Int) :
    (e.strengthPoints? currency window (some ts)).getD #[]
      = Point.since (e.strengthSamples currency window) ts := by
  unfold strengthSamples strengthPoints?
  cases e.strengthHistory.read? ⟨currency, window⟩ <;> rfl

/-- A difference is what the two strengths give, both or neither. -/
theorem series_differential (e : Engine) (base quote window : String) (since : Option Int) :
    (e.series (.differential base quote window) since).getD #[]
      = differences ((e.strengthPoints? base window since).getD #[])
          ((e.strengthPoints? quote window since).getD #[]) := by
  unfold series
  dsimp only
  cases e.strengthPoints? base window since with
  | none => rfl
  | some b =>
    cases e.strengthPoints? quote window since with
    | none => exact (differences_empty b).symm
    | some q =>
      dsimp only [Option.bind_eq_bind, Option.bind_some, Option.getD_some]
      by_cases empty : (differences b q).isEmpty = true
      · rw [if_pos empty, Array.isEmpty_iff.1 empty]
        rfl
      · rw [if_neg empty]
        rfl

/-- From a time on, the end of a series that is kept is like the whole of it. -/
theorem pointsFrom_kept {kept : Option Series} (ts : Int)
    (sorted : ∀ series, kept = some series → Point.Ordered series.points.toList) :
    pointsFrom ts (kept.map (·.since ts)) = pointsFrom ts (kept.map (·.points)) := by
  cases kept with
  | none => rfl
  | some series =>
    simp only [pointsFrom, Option.map_some, Option.getD_some, Series.since,
      Point.toList_since (sorted series rfl), List.filter_filter, Bool.and_self]

/-- From a time on, both the end of a difference and the whole of it are taken at the same samples of
the base. -/
theorem Orderly.pointsFrom_differential {e : Engine} (orderly : e.Orderly)
    (base quote window : String) (ts : Int) :
    let late := (e.strengthSamples base window).toList.filter fun b => ts ≤ b.ts
    pointsFrom ts (e.series (.differential base quote window) none)
        = late.filterMap (differenceAt? (e.strengthSamples quote window)) ∧
      pointsFrom ts (e.series (.differential base quote window) (some ts))
        = late.filterMap (differenceAt? (Point.since (e.strengthSamples quote window) ts)) := by
  intro late
  unfold pointsFrom
  constructor
  · rw [series_differential, filter_differences]
    rfl
  · rw [series_differential, filter_differences, strengthPoints?_getD, strengthPoints?_getD,
      Point.toList_since (orderly.strengthSamples base window), List.filter_filter]
    simp only [Bool.and_self, late]

/-- **What the end of a source holds of the whole.** It has no other points and no other order; and
it has all of them unless the source is a difference in which a sample of the base from that time on
belongs to a sample of the quote before it. -/
theorem series_since {c : Config} {e : Engine} (h : Reachable c e) (source : Source) (ts : Int) :
    List.Sublist (pointsFrom ts (e.series source (some ts))) (pointsFrom ts (e.series source none)) ∧
      (pointsFrom ts (e.series source (some ts)) = pointsFrom ts (e.series source none) ↔
        ∀ base quote window, source = .differential base quote window →
          ∀ b ∈ (e.strengthSamples base window).toList, ts ≤ b.ts →
            ¬ CarriedFrom ts (e.strengthSamples quote window) b) := by
  have orderly := h.orderly
  cases source with
  | price instrument =>
    have same : pointsFrom ts (e.series (.price instrument) (some ts))
        = pointsFrom ts (e.series (.price instrument) none) :=
      pointsFrom_kept ts fun _ => TickStore.read?_ordered orderly.prices
    rw [same]
    exact ⟨List.Sublist.refl _, iff_of_true rfl nofun⟩
  | strength currency window =>
    have same : pointsFrom ts (e.series (.strength currency window) (some ts))
        = pointsFrom ts (e.series (.strength currency window) none) :=
      pointsFrom_kept ts fun _ => StrengthHistory.read?_ordered orderly.strengths
    rw [same]
    exact ⟨List.Sublist.refl _, iff_of_true rfl nofun⟩
  | differential base quote window =>
    obtain ⟨whole, tail⟩ := orderly.pointsFrom_differential base quote window ts
    have place := differenceAt?_since (orderly.strengthSamples quote window) ts
    have part : ∀ b ∈ (e.strengthSamples base window).toList.filter (fun b => ts ≤ b.ts),
        differenceAt? (Point.since (e.strengthSamples quote window) ts) b = none ∨
          differenceAt? (Point.since (e.strengthSamples quote window) ts) b
            = differenceAt? (e.strengthSamples quote window) b := by
      intro b _
      rcases place b with ⟨nothing, -, -⟩ | ⟨same, -⟩
      · exact .inl nothing
      · exact .inr same
    rw [whole, tail]
    refine ⟨filterMap_sublist_filterMap part, (filterMap_eq_iff part).trans ?_⟩
    constructor
    · rintro agree _ _ _ ⟨⟩ b hb late carried
      have same := agree b (List.mem_filter.2 ⟨hb, decide_eq_true late⟩)
      rcases place b with ⟨nothing, -, there⟩ | ⟨-, here⟩
      · rw [← same, nothing] at there
        cases there
      · exact here carried
    · intro fresh b hb
      obtain ⟨hb, late⟩ := List.mem_filter.1 hb
      rcases place b with ⟨-, carried, -⟩ | ⟨same, -⟩
      · exact absurd carried (fresh base quote window rfl b hb (of_decide_eq_true late))
      · exact same

/-- Five minutes of history, four currencies. -/
def laggingSetup : Config.Lookup
  | "CURRENCIES" => some "EUR,USD,GBP,JPY"
  | "WINDOWS" => some "5m"
  | "OSC_WINDOW" => some "5m"
  | "TRIGGER_GRID" => some "10:1"
  | "STATE_RSI_PERIOD" => some "0"
  | "STATE_VOL_WINDOWS" => some ""
  | "RETENTION_SLACK_MINUTES" => some "0"
  | _ => none

/-- Both pairs are quoted, then one of them is silent for ten minutes. The one quote after that has no
other within its history, so there is no change and no new sample of pound and yen. -/
def laggingRun : List Action :=
  let quote (instrument : String) (ts : Int) (price : Float) : Action :=
    .ingest ⟨instrument, price, price, ts⟩
  [quote "EURUSD" 0 1.0, quote "EURUSD" 60000 1.5, quote "GBPJPY" 0 100.0,
    quote "GBPJPY" 60000 150.0, .refresh ⟨0, 1⟩, quote "EURUSD" 600000 1.0,
    quote "EURUSD" 660000 1.25, quote "GBPJPY" 660000 150.0, .refresh ⟨0, 1⟩]

def euroPound : Source := .differential "EUR" "GBP" "5m"

/-- The whole difference has a point that its end from that very time on has not. -/
theorem series_since_lagging :
    ∃ c e, Config.load laggingSetup = .ok c ∧ Reachable c e ∧
      pointsFrom 660000 (e.series euroPound (some 660000)) = [] ∧
      pointsFrom 660000 (e.series euroPound none) = [⟨660000, -25.0⟩] ∧
      ∃ b ∈ (e.strengthSamples "EUR" "5m").toList, 660000 ≤ b.ts ∧
        CarriedFrom 660000 (e.strengthSamples "GBP" "5m") b := by
  have computed : ((Config.load laggingSetup).toOption.any fun c =>
      ((new c ∅).performAll laggingRun).toOption.any fun e =>
        decide (pointsFrom 660000 (e.series euroPound (some 660000)) = [] ∧
          pointsFrom 660000 (e.series euroPound none) = [⟨660000, -25.0⟩])) = true := by
    decide +kernel
  obtain ⟨c, loaded, rest⟩ := exists_ok_of_any computed
  obtain ⟨e, ran, differ⟩ := exists_ok_of_any rest
  obtain ⟨missing, there⟩ := of_decide_eq_true differ
  have reached : Reachable c e := (Reachable.new ∅).performAll ran
  refine ⟨c, e, loaded, reached, missing, there, ?_⟩
  have lost := mt (series_since reached euroPound 660000).2.2 (by simp [missing, there])
  simpa [euroPound] using lost

end Engine

end FxPulse
