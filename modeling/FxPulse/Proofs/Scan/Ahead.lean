import FxPulse.Proofs.Scan.Bars

/-!
# `Proofs/Scan/Ahead.lean` — what a scan sees of the future

Whether an outcome can be judged at a bar, and whether it came true there, said without a search: the
bars that matter are those after the bar and not after its horizon, whatever their places.

> `Scan.ahead?` finds the extremes of exactly these bars, and finds none exactly when there are no such
> bars or the data ends before the horizon (`ahead?_eq`).

The one condition is that the horizon does not look back. One that does may end before the first bar,
and then a scan has no answer at all.
-/

set_option autoImplicit false

namespace FxPulse.Scan

open FxPulse.Number

/-- The bars after one time and not after another. -/
def within (bars : Array Bar) (after horizon : Int) : List Bar :=
  bars.toList.filter fun b => after < b.ts && b.ts ≤ horizon

/-- The outcome can be judged at bar `i`: the data reaches its horizon, and there is a bar on the
way. -/
def Judged (bars : Array Bar) (i : Nat) (o : Outcome) : Prop :=
  ∃ hi : i < bars.size, bars[i].ts + o.horizon ≤ bars[bars.size - 1].ts ∧
    within bars bars[i].ts (bars[i].ts + o.horizon) ≠ []

/-- The greatest high and the least low of some bars. -/
def Extremes.ofBars (stretch : List Bar) : Extremes :=
  ⟨greatest (stretch.map (·.high)), least (stretch.map (·.low))⟩

/-- The price goes far enough in a direction between bar `i` and the horizon of the outcome. -/
def Reached (bars : Array Bar) (pip : Float) (i : Nat) (o : Outcome) (d : Direction) : Prop :=
  ∃ _ : i < bars.size,
    let extremes := Extremes.ofBars (within bars bars[i].ts (bars[i].ts + o.horizon))
    o.reachedBy (extremes.excursion bars[i].close d / pip) = true

/-! ## Bars within a horizon stand side by side -/

/-- If the first `count` bars are those not after a time, the bars between bar `i` and that time are
those of them behind place `i`. -/
theorem within_eq {bars : Array Bar} (ascending : Bar.Ascending bars.toList) {i count : Nat}
    (hi : i < bars.size) {horizon : Int}
    (cut : ∀ (k : Nat) (_ : k < bars.size), k < count ↔ bars[k].ts ≤ horizon) :
    within bars bars[i].ts horizon = (bars.toList.take count).drop (i + 1) := by
  have early : bars.toList.take count = bars.toList.filter fun b => b.ts ≤ horizon := by
    refine take_eq_filter fun k hk => ?_
    rw [cut k (by simpa using hk), Array.getElem_toList, decide_eq_true_eq]
  have late : (bars.toList.take count).drop (i + 1)
      = (bars.toList.take count).filter fun b => bars[i].ts < b.ts := by
    refine drop_eq_filter fun k hk => ?_
    rw [List.length_take, Array.length_toList] at hk
    rw [List.getElem_take, Array.getElem_toList, decide_eq_true_eq, ascending.lt_iff hi (by omega)]
    exact Nat.succ_le_iff
  rw [late, early, List.filter_filter, within]

/-! ## Looking ahead -/

/-- The extremes of the bars between bar `i` and the horizon of the outcome, if it can be judged. -/
def extremes? (bars : Array Bar) (i : Nat) (o : Outcome) : Option Extremes := do
  let bar ← bars[i]?
  let last ← bars.back?
  let stretch := within bars bar.ts (bar.ts + o.horizon)
  if bar.ts + o.horizon ≤ last.ts ∧ stretch ≠ [] then some (Extremes.ofBars stretch) else none

theorem extremes?_eq_some_iff {bars : Array Bar} {i : Nat} (hi : i < bars.size) {o : Outcome}
    {e : Extremes} :
    extremes? bars i o = some e ↔ Judged bars i o ∧
      e = Extremes.ofBars (within bars bars[i].ts (bars[i].ts + o.horizon)) := by
  have last : bars.back? = some bars[bars.size - 1] := back?_eq_some_back (Nat.zero_lt_of_lt hi)
  rw [extremes?, Array.getElem?_eq_getElem hi, last]
  simp only [Option.bind_eq_bind, Option.bind_some, Option.ite_none_right_eq_some, Option.some_inj]
  constructor
  · rintro ⟨⟨reaches, some_bar⟩, rfl⟩
    exact ⟨⟨hi, reaches, some_bar⟩, rfl⟩
  · rintro ⟨⟨_, reaches, some_bar⟩, rfl⟩
    exact ⟨⟨reaches, some_bar⟩, rfl⟩

/-- **Looking ahead finds the extremes within the horizon**, and always has an answer. -/
theorem ahead?_eq {bars : Array Bar} (ascending : Bar.Ascending bars.toList) {i : Nat}
    (hi : i < bars.size) {o : Outcome} (forward : 0 ≤ o.minutes) :
    ahead? bars (bars.map Bar.closing) i o = .ok (extremes? bars i o) := by
  have last : bars.back? = some bars[bars.size - 1] := back?_eq_some_back (Nat.zero_lt_of_lt hi)
  have lastClosing : (bars.map Bar.closing).back? = some bars[bars.size - 1].closing := by
    rw [Array.back?_map, last, Option.map_some]
  have horizon_nonneg : 0 ≤ o.horizon := Int.mul_nonneg forward (by decide)
  have place : ∀ (k : Nat) (_ : k < bars.size),
      k < Point.countFront (bars.map Bar.closing) (· ≤ bars[i].ts + o.horizon)
        ↔ bars[k].ts ≤ bars[i].ts + o.horizon := by
    intro k hk
    rw [Point.countFront, Point.lt_countBefore_iff ascending.closings (Point.down_le _)
      (Nat.le_refl _) (by simpa using hk), decide_eq_true_eq, Array.getElem_map]
    exact Iff.rfl
  have stretch := within_eq ascending hi place
  have beyond : i < Point.countFront (bars.map Bar.closing) (· ≤ bars[i].ts + o.horizon) :=
    (place i hi).2 (by omega)
  have bound : Point.countFront (bars.map Bar.closing) (· ≤ bars[i].ts + o.horizon) ≤ bars.size := by
    rw [← Array.size_map (f := Bar.closing)]
    exact Point.countBefore_le _ _ _
  rw [extremes?, Array.getElem?_eq_getElem hi, last, ahead?, Array.getElem?_map,
    Array.getElem?_eq_getElem hi, lastClosing]
  dsimp only [Option.map_some, Option.bind_eq_bind, Option.bind_some, Bar.closing]
  rw [stretch]
  by_cases reaches : bars[i].ts + o.horizon ≤ bars[bars.size - 1].ts
  · rw [if_neg (by omega)]
    revert bound beyond
    generalize Point.countFront (bars.map Bar.closing) (· ≤ bars[i].ts + o.horizon) = count
    intro bound beyond
    obtain ⟨final, rfl⟩ : ∃ final, count = final + 1 := ⟨count - 1, by omega⟩
    dsimp only
    by_cases short : final ≤ i
    · rw [if_pos short, if_neg fun both => both.2 (List.drop_eq_nil_of_le (by simp; omega))]
    · have some_bar : (bars.toList.take (final + 1)).drop (i + 1) ≠ [] := by
        rw [ne_eq, List.drop_eq_nil_iff, List.length_take, Array.length_toList]
        omega
      rw [if_neg short, if_pos ⟨reaches, some_bar⟩, Extremes.ofBars, Array.toList_extract,
        List.extract_eq_take_drop, List.take_drop, Nat.add_sub_cancel' (by omega)]
  · rw [if_pos (by omega), if_neg fun both => reaches both.1]

end FxPulse.Scan
