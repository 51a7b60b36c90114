import FxPulse.Proofs.Checked.Live
import FxPulse.Proofs.Edge.Pruned

/-!
# `Proofs/Checked/Pruned.lean` — forgetting is invisible to triggers, in words

A reference that has been forgotten is one that the gap would not let pass. That takes a cutoff that is where
retention says, and a time since a reference that comes out as it is: a cutoff that leaves the word may forget
everything, and a time that leaves it may bring back a reference from long ago.

> Where words hold the cutoffs and what triggers compute among all points, a trigger whose window and gap are
> covered by the retention has the same bursts at the end of what is kept as at the end of all that came
> (`firedBy_prunedAlike`).
-/

set_option autoImplicit false

namespace FxPulse

open FxPulse.Number
open FxPulse.Scan (jumpSettings)

instance EdgeSettings.decidableFitsAt (s : EdgeSettings) (series : Series) :
    Decidable (s.FitsAt series) :=
  decidable_of_iff
    (∀ current ∈ series.latest?, ∀ t ∈ s.triggers, t.Fits s.gap series.points current) Iff.rfl

/-- Fewer points with the same newest one ask for no more. -/
theorem EdgeSettings.FitsAt.mono {s : EdgeSettings} {series fewer : Series} (fits : s.FitsAt series)
    (latest : fewer.latest? = series.latest?) (among : ∀ p ∈ fewer.points, p ∈ series.points) :
    s.FitsAt fewer :=
  fun current newest t listed => (fits current (latest ▸ newest) t listed).mono among

namespace Checked

/-- **Pruning is invisible to triggers.** A series has taken in some pushes and pruned by age alone; beside
it stands one that has kept every point it accepted. Where words hold the cutoffs of all pushes, and what the
triggers compute at the end of all points, a trigger whose window and gap are covered by the retention has the
same bursts at the end of both. -/
theorem firedBy_prunedAlike (b : Build) (e : EdgeSettings) {retention : Int} (forward : 0 ≤ retention)
    {capacity : Nat} {calls : List Point}
    (cutoffs : ∀ p ∈ calls, fitsSigned (p.ts - retention) = true)
    (roomy : (Series.recent retention ((Series.new retention capacity).accepted calls)).length
      ≤ max capacity 1)
    {t : Trigger} (reach : t.window + e.gap ≤ retention) (pip : Float) :
    let whole : Series :=
      { Series.new retention capacity with
        points := ((Series.new retention capacity).accepted calls).toArray }
    e.FitsAt whole →
    ∃ pruned found all, seriesOfferAll b (Series.new retention capacity) calls = .ok pruned ∧
      firedBy b e pruned pip = .ok found ∧ firedBy b e whole pip = .ok all ∧
      found.filter (fun burst => burst.trigger = t) = all.filter fun burst => burst.trigger = t := by
  intro whole fits
  obtain ⟨retains, kept_retention, kept_capacity⟩ :=
    (Series.retains_new forward capacity).offerAll calls
  rw [List.nil_append] at retains
  have latest : ((Series.new retention capacity).offerAll calls).latest? = whole.latest? := by
    rw [retains.latest?_eq, Series.latest?, ← Array.getLast?_toList]
  have among : ∀ p ∈ ((Series.new retention capacity).offerAll calls).points, p ∈ whole.points := by
    intro p mem
    exact List.mem_toArray.2 (retains.suffix.subset (Array.mem_toList_iff.2 mem))
  have same := firedBy_unpruned e forward roomy reach pip
  dsimp only at same
  rw [kept_retention, kept_capacity] at same
  exact ⟨_, _, _, seriesOfferAll_eq cutoffs b, firedBy_eq (fits.mono latest among) b pip,
    firedBy_eq fits b pip, same⟩

/-- A minute without quotes: the reference is as old as a window of a minute and a gap of a minute allow,
and just young enough to be kept. The point before it is gone, and the trigger fires all the same. -/
theorem firedBy_prunedAlike_outage :
    let calls : List Point := [⟨0, 1.0⟩, ⟨60000, 1.1⟩, ⟨180000, 1.101⟩]
    let e := jumpSettings.live 1 (PipSizes.ofList [])
    let t : Trigger := ⟨(8.0 : Float), 1⟩
    let whole : Series := { Series.new 120000 100 with points := calls.toArray }
    (0 : Int) ≤ 120000 ∧ (∀ p ∈ calls, fitsSigned (p.ts - 120000) = true) ∧
    t.window + e.gap ≤ 120000 ∧ (Series.new 120000 100).accepted calls = calls ∧
    (Series.recent 120000 calls).length ≤ max 100 1 ∧ e.FitsAt whole ∧
    ∃ pruned found all, seriesOfferAll .wrapping (Series.new 120000 100) calls = .ok pruned ∧
      pruned.size = 2 ∧ firedBy .wrapping e pruned 0.0001 = .ok found ∧
      firedBy .wrapping e whole 0.0001 = .ok all ∧
      (all.filter fun burst => burst.trigger = t).length = 1 ∧
      found.filter (fun burst => burst.trigger = t) = all.filter fun burst => burst.trigger = t := by
  intro calls e t whole
  have forward : (0 : Int) ≤ 120000 := by decide
  have cutoffs : ∀ p ∈ calls, fitsSigned (p.ts - 120000) = true := by decide +kernel
  have reach : t.window + e.gap ≤ 120000 := by decide +kernel
  have came : (Series.new 120000 100).accepted calls = calls := by decide +kernel
  have roomy : (Series.recent 120000 ((Series.new 120000 100).accepted calls)).length
      ≤ max 100 1 := by
    decide +kernel
  have fits : e.FitsAt whole := by decide +kernel
  have alike := firedBy_prunedAlike .wrapping e forward cutoffs roomy reach 0.0001
  rw [came] at alike roomy
  obtain ⟨pruned, found, all, filled, fired, firedAll, same⟩ := alike fits
  refine ⟨forward, cutoffs, reach, came, roomy, fits, pruned, found, all, filled, ?_, fired, firedAll,
    ?_, same⟩
  · have size : (seriesOfferAll .wrapping (Series.new 120000 100) calls).toOption.map Series.size
        = some 2 := by decide +kernel
    rw [filled] at size
    exact Option.some.inj size
  · have one : (firedBy .wrapping e whole 0.0001).toOption.map
        (fun all => (all.filter fun burst => burst.trigger = t).length) = some 1 := by decide +kernel
    rw [firedAll] at one
    exact Option.some.inj one

end Checked

end FxPulse
