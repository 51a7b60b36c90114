import FxPulse.Proofs.Engine.Since
import FxPulse.Proofs.Oscillator.Drained

/-!
# `Proofs/Engine/Steady.lean` — asking a source again

An oscillator that has read its source asks again from its own time on. Prices and strengths are cut at
that time. The end of a difference is taken between the ends of two series, and may miss points that the
whole has; still,

> every source of an engine is steady (`Orderly.steady`): from the time of its last point on it has no
> points but those of that time, and no more of them than before.
-/

set_option autoImplicit false

namespace FxPulse

open Point (Ordered countAt)

/-! ## Ends of series -/

/-- The points from a time on, or all of them. -/
def endOf (points : Array Point) (since : Option Int) : Array Point := since.elim points (Point.since points)

section End

variable {points : Array Point} (sorted : Ordered points.toList)
include sorted

theorem toList_endOf (since : Option Int) :
    (endOf points since).toList = points.toList.filter fun p => since.all fun ts => ts ≤ p.ts := by
  cases since with
  | none => exact (List.filter_eq_self.2 fun p hp => rfl).symm
  | some ts => exact Point.toList_since sorted ts

theorem ordered_endOf (since : Option Int) : Ordered (endOf points since).toList := by
  rw [toList_endOf sorted]
  exact sorted.of_sublist List.filter_sublist

theorem le_of_mem_endOf {ts : Int} {p : Point} (h : p ∈ (endOf points (some ts)).toList) : ts ≤ p.ts := by
  rw [toList_endOf sorted] at h
  exact of_decide_eq_true (List.mem_filter.1 h).2

/-- From a time of one end on, the end is that of the other end. -/
theorem endOf_of_mem {since : Option Int} {last : Point} (h : last ∈ (endOf points since).toList) :
    (endOf points (some last.ts)).toList
      = (endOf points since).toList.filter fun p => last.ts ≤ p.ts := by
  rw [toList_endOf sorted] at h
  have late := (List.mem_filter.1 h).2
  rw [toList_endOf sorted, toList_endOf sorted, List.filter_filter]
  refine List.filter_congr fun p hp => ?_
  cases since with
  | none => simp
  | some ts =>
    have late := of_decide_eq_true late
    simp only [Option.all_some, ← Bool.decide_and, decide_eq_decide]
    omega

end End

/-- Among points up to a time, those from that time on are those of that time. -/
theorem length_filter_eq_countAt {points : List Point} {ts : Int} (upTo : ∀ p ∈ points, p.ts ≤ ts) :
    (points.filter fun p => ts ≤ p.ts).length = countAt points ts := by
  rw [countAt, List.countP_eq_length_filter]
  congr 1
  refine List.filter_congr fun p hp => ?_
  have := upTo p hp
  rw [decide_eq_decide]
  omega

/-- The end of a single series is steady. -/
theorem steady_endOf {kept : Option (Array Point)}
    (sorted : ∀ points, kept = some points → Ordered points.toList) :
    Steady fun since => kept.map (endOf · since) where
  sorted since given h := by
    obtain ⟨points, here, rfl⟩ := Option.map_eq_some_iff.1 h
    exact ordered_endOf (sorted points here) since
  since_le ts given h p hp := by
    obtain ⟨points, here, rfl⟩ := Option.map_eq_some_iff.1 h
    exact le_of_mem_endOf (sorted points here) hp
  again since given last h newest more hmore := by
    obtain ⟨points, here, rfl⟩ := Option.map_eq_some_iff.1 h
    obtain ⟨same, there, rfl⟩ := Option.map_eq_some_iff.1 hmore
    obtain rfl : same = points := Option.some.inj (there.symm.trans here)
    have upTo := (ordered_endOf (sorted same here) since).le_getLast newest
    have again := endOf_of_mem (sorted same here) (List.mem_of_getLast? newest)
    constructor
    · intro p hp
      rw [again] at hp
      exact upTo p (List.mem_of_mem_filter hp)
    · rw [← Array.length_toList, again, length_filter_eq_countAt upTo]

/-! ## Ends of differences -/

theorem ts_of_differenceAt? {quote : Array Point} {b p : Point} (h : differenceAt? quote b = some p) :
    p.ts = b.ts := by
  obtain ⟨q, -, rfl⟩ := Option.map_eq_some_iff.1 h
  rfl

/-- Where one sample of the base has a quote, a later one has, too. -/
theorem isSome_differenceAt? {quote : Array Point} (sorted : Ordered quote.toList) {b later : Point}
    (h : (differenceAt? quote b).isSome) (order : b.ts ≤ later.ts) :
    (differenceAt? quote later).isSome := by
  rw [differenceAt?, Option.isSome_map, Point.covering?_eq sorted, List.getLast?_isSome] at h ⊢
  obtain ⟨q, hq⟩ := List.exists_mem_of_ne_nil _ h
  obtain ⟨held, early⟩ := List.mem_filter.1 hq
  have early := of_decide_eq_true early
  exact List.ne_nil_of_mem (List.mem_filter.2 ⟨held, decide_eq_true (by omega)⟩)

theorem mem_differences_iff {base quote : Array Point} {p : Point} :
    p ∈ (differences base quote).toList ↔ ∃ b ∈ base.toList, differenceAt? quote b = some p := by
  rw [toList_differences, List.mem_filterMap]

theorem ordered_differences {base : Array Point} (sorted : Ordered base.toList) (quote : Array Point) :
    Ordered (differences base quote).toList := by
  rw [toList_differences]
  refine List.Pairwise.filterMap _ ?_ sorted
  intro b c order p hp q hq
  rw [ts_of_differenceAt? hp, ts_of_differenceAt? hq]
  exact order

/-- The difference of the ends of two series, if it has points. -/
def endOfDifference (base quote : Option (Array Point)) (since : Option Int) : Option (Array Point) := do
  let base ← base.map (endOf · since)
  let quote ← quote.map (endOf · since)
  if (differences base quote).isEmpty then none else some (differences base quote)

theorem endOfDifference_eq_some {base quote : Option (Array Point)} {since : Option Int}
    {points : Array Point} (h : endOfDifference base quote since = some points) :
    ∃ b q, base = some b ∧ quote = some q ∧ points = differences (endOf b since) (endOf q since) := by
  obtain ⟨front, hfront, h⟩ := Option.bind_eq_some_iff.1 h
  obtain ⟨back, hback, h⟩ := Option.bind_eq_some_iff.1 h
  obtain ⟨b, rfl, rfl⟩ := Option.map_eq_some_iff.1 hfront
  obtain ⟨q, rfl, rfl⟩ := Option.map_eq_some_iff.1 hback
  split at h
  · cases h
  · exact ⟨b, q, rfl, rfl, (Option.some.inj h).symm⟩

/-- The end of a difference is steady, too: once there is a quote, no later sample of the base is without
one, so that the last point is at the last sample of the base. -/
theorem steady_endOfDifference {base quote : Option (Array Point)}
    (baseSorted : ∀ points, base = some points → Ordered points.toList)
    (quoteSorted : ∀ points, quote = some points → Ordered points.toList) :
    Steady (endOfDifference base quote) where
  sorted since given h := by
    obtain ⟨b, q, here, -, rfl⟩ := endOfDifference_eq_some h
    exact ordered_differences (ordered_endOf (baseSorted b here) since) _
  since_le ts given h p hp := by
    obtain ⟨b, q, here, -, rfl⟩ := endOfDifference_eq_some h
    obtain ⟨sample, mem, taken⟩ := mem_differences_iff.1 hp
    rw [ts_of_differenceAt? taken]
    exact le_of_mem_endOf (baseSorted b here) mem
  again since given last h newest more hmore := by
    obtain ⟨b, q, rfl, rfl, rfl⟩ := endOfDifference_eq_some h
    obtain ⟨b', q', hb, hq, rfl⟩ := endOfDifference_eq_some hmore
    cases hb
    cases hq
    have sorted := baseSorted b rfl
    have quotes := ordered_endOf (quoteSorted q rfl) since
    have newestOf := (ordered_differences (ordered_endOf sorted since) _).le_getLast newest
    obtain ⟨own, mem, taken⟩ := mem_differences_iff.1 (List.mem_of_getLast? newest)
    have time := ts_of_differenceAt? taken
    have late := endOf_of_mem sorted mem
    rw [← time] at late
    have covered : ∀ sample ∈ (endOf b since).toList.filter (fun p => last.ts ≤ p.ts),
        (differenceAt? (endOf q since) sample).isSome := by
      intro sample hs
      have order := of_decide_eq_true (List.mem_filter.1 hs).2
      exact isSome_differenceAt? quotes (Option.isSome_of_eq_some taken) (by omega)
    have upTo : ∀ sample ∈ (endOf b since).toList.filter (fun p => last.ts ≤ p.ts),
        sample.ts ≤ last.ts := by
      intro sample hs
      obtain ⟨p, hp⟩ := Option.isSome_iff_exists.1 (covered sample hs)
      rw [← ts_of_differenceAt? hp]
      exact newestOf p (mem_differences_iff.2 ⟨sample, List.mem_of_mem_filter hs, hp⟩)
    constructor
    · intro p hp
      obtain ⟨sample, hs, taken⟩ := mem_differences_iff.1 hp
      rw [ts_of_differenceAt? taken]
      exact upTo sample (late ▸ hs)
    · calc (differences (endOf b (some last.ts)) (endOf q (some last.ts))).size
          ≤ ((endOf b since).toList.filter fun p => last.ts ≤ p.ts).length := by
            rw [← Array.length_toList, toList_differences, late]
            exact List.length_filterMap_le _ _
        _ = countAt (differences (endOf b since) (endOf q since)).toList last.ts := by
            rw [← length_filter_eq_countAt newestOf, filter_differences,
              List.filterMap_length_eq_length.2 covered]

namespace Engine

theorem series_price (e : Engine) (instrument : String) :
    e.series (.price instrument)
      = fun since => ((e.store.read? instrument).map (·.points)).map (endOf · since) := by
  funext since
  rw [Option.map_map]
  cases since <;> rfl

theorem strengthPoints?_eq (e : Engine) (currency window : String) :
    e.strengthPoints? currency window
      = fun since => ((e.strengthHistory.read? ⟨currency, window⟩).map (·.points)).map
          (endOf · since) := by
  funext since
  rw [Option.map_map]
  cases since <;> rfl

/-- **All sources of an orderly engine are steady.** -/
theorem Orderly.steady {e : Engine} (orderly : e.Orderly) (source : Source) :
    Steady (e.series source) := by
  have strengths : ∀ currency window points,
      (e.strengthHistory.read? ⟨currency, window⟩).map (·.points) = some points →
        Ordered points.toList := by
    intro currency window points h
    obtain ⟨series, found, rfl⟩ := Option.map_eq_some_iff.1 h
    exact StrengthHistory.read?_ordered orderly.strengths found
  cases source with
  | price instrument =>
    rw [series_price]
    refine steady_endOf fun points h => ?_
    obtain ⟨series, found, rfl⟩ := Option.map_eq_some_iff.1 h
    exact TickStore.read?_ordered orderly.prices found
  | strength currency window =>
    show Steady (e.strengthPoints? currency window)
    rw [strengthPoints?_eq]
    exact steady_endOf (strengths currency window)
  | differential base quote window =>
    have same : e.series (.differential base quote window)
        = endOfDifference ((e.strengthHistory.read? ⟨base, window⟩).map (·.points))
            ((e.strengthHistory.read? ⟨quote, window⟩).map (·.points)) := by
      funext since
      unfold series endOfDifference
      dsimp only
      rw [strengthPoints?_eq, strengthPoints?_eq]
    rw [same]
    exact steady_endOfDifference (strengths base window) (strengths quote window)

end Engine

end FxPulse
