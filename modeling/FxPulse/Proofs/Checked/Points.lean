import FxPulse.Checked.History
import FxPulse.Proofs.Checked.Basic
import FxPulse.Proofs.History.Search

/-!
# `Proofs/Checked/Points.lean` — look-ups by time

A look-up counts the points in front of a time and then steps back by one, or cuts the rest off there.
Neither can go wrong, since no more points are counted than there are (`countBefore_le`). That takes no
order of the points: it holds of histories, and of bars that nobody has looked at.
-/

set_option autoImplicit false

namespace FxPulse

/-- Counting among the first `n` points is counting in what is cut out for them. -/
theorem Point.countFront_extract {points : Array Point} {n : Nat} (within : n ≤ points.size)
    (test : Int → Bool) : countFront (points.extract 0 n) test = countBefore points n test := by
  have size : (points.extract 0 n).size = n := by simp [within]
  rw [countFront, size]
  refine countBefore_congr (fun i hi => ?_) test
  rw [Array.getElem?_extract, Nat.min_eq_left within, if_pos (by omega), Nat.zero_add]

namespace Checked

variable (points : Array Point) (ts : Int)

theorem atOrBefore_eq : atOrBefore points ts = .ok (Point.atOrBefore? points ts) := by
  unfold atOrBefore Point.atOrBefore?
  by_cases none_before : Point.countFront points (· ≤ ts) = 0
  · simp only [none_before, if_true, Nat.zero_sub, pure_eq_ok]
  · simp only [none_before, if_false, difference_eq (Nat.pos_of_ne_zero none_before), ok_bind,
      pure_eq_ok]

theorem covering_eq : covering points ts = .ok (Point.covering? points ts) := by
  rw [covering, atOrBefore_eq]
  rfl

theorem since_eq : since points ts = .ok (Point.since points ts) :=
  stretch_eq (Point.countBefore_le _ _ _) (Nat.le_refl _)

theorem differences_eq (base quote : Array Point) :
    differences base quote = .ok (FxPulse.differences base quote) := by
  have found := mapM_eq_ok (ε := Halt) (l := base.toList)
    (f := fun b => do
      return (← covering quote b.ts).map fun q => (⟨b.ts, b.value - q.value⟩ : Point))
    (g := fun b => (Point.covering? quote b.ts).map fun q => ⟨b.ts, b.value - q.value⟩)
    fun b _ => by rw [covering_eq]; rfl
  rw [differences, found, FxPulse.differences]
  simp only [ok_bind, pure_eq_ok, List.filterMap_map, Function.id_comp, Except.ok.injEq]
  apply Array.toList_inj.1
  rw [Array.toList_filterMap]

end Checked

end FxPulse
