import FxPulse.Proofs.History.TickStore
import FxPulse.Proofs.Number.Range
import FxPulse.Proofs.Number.Sample

/-!
# `Proofs/History/Mids.lean` — what a store holds are prices, unless a sum overflows

A store looks at the bid and the ask of a quote and keeps half their sum. Where the sum has a float, that is a
price again: twice a price is a float too, so

> half the sum of two prices lies between them even though both steps are rounded (`half_mem_Icc`).

From half a place above the greatest float on the sum is infinite, and so is what the store keeps. Nothing looks
at it again: a point stays as the call wrote it until it is pruned (`exists_call_of_held`).
-/

set_option autoImplicit false

namespace FxPulse

open FxPulse.Number

/-! ## Half a sum -/

section Half

variable {total : Float} {a b : ℝ} (sum : Stands total (rounded (a + b : ℝ)))
include sum

/-- **Half the sum of two floats lies between them**, unless the sum is infinite. -/
theorem half_mem_Icc {x y : Float} (hx : Stands x a) (hy : Stands y b) (fits : Fits a) (fits' : Fits b)
    (le : a ≤ b) (finite : total.isFinite = true) :
    ∃ v, Stands (total / 2.0) v ∧ v ∈ Set.Icc (a : EReal) b := by
  obtain ⟨w, stands, -⟩ := exists_stands_of_isFinite finite
  have nearest_sum : nearest (a + b) = w :=
    nearest_eq_of_rounded (sum.worth_eq.symm.trans stands.worth_eq)
  have least : 2 * a ≤ w := by
    rw [← nearest_of_fits fits.double, ← nearest_sum]
    exact nearest_mono (by linarith)
  have greatest : w ≤ 2 * b := by
    rw [← nearest_of_fits fits'.double, ← nearest_sum]
    exact nearest_mono (by linarith)
  have half := stands.div stands_two two_ne_zero (.inl finite)
  refine ⟨_, half, rounded_mem_Icc hx.rounded_eq hy.rounded_eq ?_⟩
  rw [show (2 : EReal) = ((2 : ℝ) : EReal) from rfl, ← EReal.coe_div]
  constructor <;> rw [EReal.coe_le_coe_iff] <;> linarith

/-- Half an infinite sum is infinite. -/
theorem stands_half_infinite (nonneg : 0 ≤ a + b) (infinite : total.isFinite = false) :
    Stands (total / 2.0) ⊤ := by
  have top : rounded (a + b : ℝ) = ⊤ := by
    rw [rounded_eq_top_iff, ← not_lt, ← sum.isFinite_iff_lt_overflow nonneg, infinite]
    exact Bool.false_ne_true
  have half := (top ▸ sum).div stands_two two_ne_zero (.inr (stands_two.isFinite (r := 2)))
  rwa [EReal.top_div_of_pos_ne_top two_pos (EReal.coe_ne_top 2), rounded_top] at half

end Half

/-! ## Mid prices -/

theorem TickStore.isPrice_iff {x : Float} :
    isPrice x = true ↔ ∃ r : ℝ, Stands x r ∧ Fits r ∧ 0 < r := by
  unfold isPrice
  rw [Bool.and_eq_true_iff, decide_eq_true_iff]
  constructor
  · rintro ⟨finite, positive⟩
    obtain ⟨r, stands, fits, -⟩ := exists_stands_of_isFinite finite
    exact ⟨r, stands, fits, EReal.coe_pos.1 ((stands_zero.lt_iff stands).1 positive)⟩
  · rintro ⟨r, stands, -, pos⟩
    exact ⟨stands.isFinite, (stands_zero.lt_iff stands).2 (EReal.coe_pos.2 pos)⟩

namespace Tick

open TickStore (isPrice isPrice_iff)

/-- The value lies between bid and ask, whichever of the two is the greater one. -/
def Spans (t : Tick) (x : Float) : Prop := (t.bid ≤ x ∧ x ≤ t.ask) ∨ (t.ask ≤ x ∧ x ≤ t.bid)

section Priced

variable {t : Tick} (bid : isPrice t.bid = true) (ask : isPrice t.ask = true)
include bid ask

theorem exists_stands_sum :
    ∃ a b : ℝ, (Stands t.bid a ∧ Fits a ∧ 0 < a) ∧ (Stands t.ask b ∧ Fits b ∧ 0 < b) ∧
      Stands (t.bid + t.ask) (rounded (a + b : ℝ)) := by
  obtain ⟨a, ha⟩ := isPrice_iff.1 bid
  obtain ⟨b, hb⟩ := isPrice_iff.1 ask
  have sum := ha.1.add hb.1 (.inl (EReal.coe_ne_top a)) (.inl (EReal.coe_ne_bot a))
  exact ⟨a, b, ha, hb, EReal.coe_add a b ▸ sum⟩

/-- The sum is finite up to half a place above the greatest float. -/
theorem isFinite_sum_iff : (t.bid + t.ask).isFinite = true ↔ worth t.bid + worth t.ask < overflow := by
  obtain ⟨a, b, ⟨ha, -, pos⟩, ⟨hb, -, pos'⟩, sum⟩ := exists_stands_sum bid ask
  rw [sum.isFinite_iff_lt_overflow (by positivity), ha.worth_eq, hb.worth_eq, ← EReal.coe_add,
    EReal.coe_lt_coe_iff]

/-- **A mid price is a price between bid and ask**, unless their sum is infinite. -/
theorem spans_mid (finite : (t.bid + t.ask).isFinite = true) : isPrice t.mid = true ∧ t.Spans t.mid := by
  obtain ⟨a, b, ⟨ha, fits, pos⟩, ⟨hb, fits', pos'⟩, sum⟩ := exists_stands_sum bid ask
  have priced : ∀ {v : EReal} {r s : ℝ}, Stands t.mid v → 0 < r → v ∈ Set.Icc (r : EReal) s →
      isPrice t.mid = true := by
    intro v r s mid positive between
    unfold isPrice
    rw [Bool.and_eq_true_iff, decide_eq_true_iff]
    exact ⟨mid.isFinite_of_between between.1 between.2,
      (stands_zero.lt_iff mid).2 ((EReal.coe_pos.2 positive).trans_le between.1)⟩
  rcases le_total a b with le | le
  · obtain ⟨v, mid, between⟩ := half_mem_Icc sum ha hb fits fits' le finite
    exact ⟨priced mid pos between, .inl ⟨(ha.le_iff mid).2 between.1, (mid.le_iff hb).2 between.2⟩⟩
  · obtain ⟨v, mid, between⟩ := half_mem_Icc (add_comm a b ▸ sum) hb ha fits' fits le finite
    exact ⟨priced mid pos' between, .inr ⟨(hb.le_iff mid).2 between.1, (mid.le_iff ha).2 between.2⟩⟩

theorem mid_of_overflow (infinite : (t.bid + t.ask).isFinite = false) : Stands t.mid ⊤ := by
  obtain ⟨a, b, ⟨ha, -, pos⟩, ⟨hb, -, pos'⟩, sum⟩ := exists_stands_sum bid ask
  exact stands_half_infinite sum (by positivity) infinite

/-- So it is one exactly if the sum is finite. -/
theorem isPrice_mid_iff : isPrice t.mid = true ↔ (t.bid + t.ask).isFinite = true := by
  refine ⟨fun priced => ?_, fun finite => (spans_mid bid ask finite).1⟩
  by_contra infinite
  obtain ⟨r, mid, -⟩ := isPrice_iff.1 priced
  have top := mid_of_overflow bid ask (Bool.not_eq_true _ ▸ infinite)
  exact EReal.coe_ne_top r (mid.worth_eq.symm.trans top.worth_eq)

end Priced

end Tick

/-! ## Points held -/

namespace TickStore

theorem isPrice_of_add {s grown : TickStore} {t : Tick} {p : Point} (added : s.add t = .ok (grown, p)) :
    isPrice t.bid = true ∧ isPrice t.ask = true := by
  unfold add at added
  by_cases priced : (isPrice t.bid && isPrice t.ask) = true
  · exact Bool.and_eq_true_iff.1 priced
  · rw [if_neg priced] at added
    cases added

/-- A point held after a call was held before it, or the call wrote it. -/
theorem held_after {s : TickStore} {t : Tick} {instrument : String} {p : Point}
    (held : p ∈ ((s.after t).seriesOf instrument).points.toList) :
    p ∈ (s.seriesOf instrument).points.toList ∨
      t.instrument = instrument ∧ ∃ grown, s.add t = .ok (grown, p) := by
  unfold after at held
  cases added : s.add t with
  | error cause =>
    rw [added] at held
    exact .inl held
  | ok answer =>
    obtain ⟨grown, point⟩ := answer
    rw [added] at held
    obtain ⟨series, pushed, rfl, rfl⟩ := add_eq_ok added
    dsimp only at held
    rw [seriesOf_insert] at held
    by_cases own : t.instrument = instrument
    · rw [if_pos own] at held
      rcases List.mem_append.1 ((Series.push_suffix pushed).subset held) with before | new
      · exact .inl (own ▸ before)
      · obtain rfl := List.mem_singleton.1 new
        exact .inr ⟨own, _, rfl⟩
    · rw [if_neg own] at held
      exact .inl held

/-- **Every point that is held was written by a call that was accepted in its turn.** -/
theorem exists_call_of_held {retention : Int} {calls : List Tick} {instrument : String} {p : Point}
    (held : p ∈ (((new retention).addAll calls).seriesOf instrument).points.toList) :
    ∃ before t behind, calls = before ++ t :: behind ∧ t.instrument = instrument ∧
      ∃ grown, ((new retention).addAll before).add t = .ok (grown, p) := by
  induction calls using List.reverseRecOn with
  | nil => cases held
  | append_singleton front t ih =>
    rw [addAll_append] at held
    rcases held_after held with earlier | ⟨own, grown, added⟩
    · obtain ⟨before, u, behind, rfl, found⟩ := ih earlier
      exact ⟨before, u, behind ++ [t], by simp, found⟩
    · exact ⟨front, t, [], rfl, own, grown, added⟩

/-- **What points are held, and what of them are prices.** After any calls to a new store, whatever its
retention, each point that a series holds was written by a call for its instrument that was accepted in its
turn, has the time of that call and half the sum of its prices, and both of these are finite and positive. The
value is finite and positive, and between the two, exactly if their sum is finite, which it is up to half a place
above the greatest float. Otherwise it is infinite. -/
theorem held_mids {retention : Int} {calls : List Tick} {instrument : String} {series : Series}
    (found : ((new retention).addAll calls).series[instrument]? = some series) :
    ∀ p ∈ series.points, ∃ before t behind, calls = before ++ t :: behind ∧ t.instrument = instrument ∧
      (∃ grown, ((new retention).addAll before).add t = .ok (grown, p)) ∧
      p = ⟨t.ts, t.mid⟩ ∧ isPrice t.bid = true ∧ isPrice t.ask = true ∧
      (isPrice p.value = true ∧ t.Spans p.value ↔ (t.bid + t.ask).isFinite = true) ∧
      ((t.bid + t.ask).isFinite = true ↔ worth t.bid + worth t.ask < overflow) ∧
      ((t.bid + t.ask).isFinite = false → (p.value == 1.0 / 0.0) = true) := by
  intro p mem
  have held : p ∈ (((new retention).addAll calls).seriesOf instrument).points.toList := by
    rw [seriesOf_of_getElem? found]
    exact Array.mem_toList_iff.2 mem
  obtain ⟨before, t, behind, split, own, grown, added⟩ := exists_call_of_held held
  obtain ⟨bid, ask⟩ := isPrice_of_add added
  obtain ⟨-, -, -, rfl⟩ := add_eq_ok added
  refine ⟨before, t, behind, split, own, ⟨grown, added⟩, rfl, bid, ask, ?_, Tick.isFinite_sum_iff bid ask, ?_⟩
  · exact ⟨fun shown => (Tick.isPrice_mid_iff bid ask).1 shown.1, Tick.spans_mid bid ask⟩
  · intro infinite
    exact ((Tick.mid_of_overflow bid ask infinite).beq_iff stands_infinite).2 rfl

/-- A quote whose ask is below its bid is kept as a price between them; of one with prices near the greatest
float an infinity is kept. -/
theorem held_mids_overflow :
    let calls : List Tick := [⟨"EURUSD", 1.5, 1.0, 0⟩, ⟨"EURUSD", 1.7e308, 1.7e308, 1000⟩]
    ∃ series, ((new 3600000).addAll calls).series["EURUSD"]? = some series ∧
      series.points = #[⟨0, 1.25⟩, ⟨1000, 1.0 / 0.0⟩] ∧
      ∀ p ∈ series.points, ∃ t ∈ calls, p = ⟨t.ts, t.mid⟩ ∧
        (isPrice p.value = true ∧ t.Spans p.value ↔ (t.bid + t.ask).isFinite = true) := by
  intro calls
  have computed : (((new 3600000).addAll calls).series["EURUSD"]?).map (·.points)
      = some #[⟨0, 1.25⟩, ⟨1000, 1.0 / 0.0⟩] := by decide +kernel
  obtain ⟨series, found, points⟩ := Option.map_eq_some_iff.1 computed
  refine ⟨series, found, points, fun p mem => ?_⟩
  obtain ⟨before, t, behind, split, -, -, written, -, -, shown, -⟩ := held_mids found p mem
  exact ⟨t, split ▸ List.mem_append_right before List.mem_cons_self, written, shown⟩

end TickStore

end FxPulse
