import FxPulse.Config.Basic
import FxPulse.Proofs.Edge.Minutes
import FxPulse.Proofs.History.Series
import FxPulse.Proofs.Scan.Cases
import Mathlib.Data.List.Basic

/-!
# `Proofs/Edge/Live.lean` — a scan and live matching see the same

A scan reads bars, live matching a series of points. They share neither the search for a reference nor
the way to the closes that a state is made of. Here the series is one that has taken in the closes of
the bars up to some bar, each in a minute of its own, and has dropped none. Then

> the bursts at the end of the series are those at the bar, in the order of live matching, and the state
> of the series is the state at the bar.

Only because of this do counted cases say anything about live prices.
-/

set_option autoImplicit false

namespace FxPulse

open FxPulse.Scan

/-- The settings of live matching that go with those of a scan. -/
def ScanSettings.live (s : ScanSettings) (minTotal : Nat) (pips : PipSizes) : EdgeSettings where
  triggers := Trigger.prioritize s.triggers
  state := s.state
  minTotal := minTotal
  pips := pips
  gap := s.gap

theorem Trigger.prioritize_perm (triggers : List Trigger) :
    (Trigger.prioritize triggers).Perm triggers := List.mergeSort_perm _ _

instance : Std.TransCmp Trigger.priority :=
  inferInstanceAs (Std.TransCmp (compareLex (compareOn Trigger.minutes)
    fun a b => compareOn (fun t : Trigger => t.minPips.key) b a))

/-- Triggers in order of priority are in that order. -/
theorem Trigger.pairwise_prioritize (triggers : List Trigger) :
    (Trigger.prioritize triggers).Pairwise fun a b => (Trigger.priority a b).isLE = true := by
  refine List.pairwise_mergeSort (fun a b c => Std.TransCmp.isLE_trans) (fun a b => ?_) triggers
  rw [Bool.or_eq_true, or_iff_not_imp_left]
  intro above
  rw [Std.OrientedCmp.lt_of_not_isLE above]
  rfl

/-- The burst of one trigger at the end of a series. -/
def Series.burst? (s : Series) (pip : Float) (gap : Int) (t : Trigger) : Option Burst := do
  let current ← s.latest?
  let reference ← s.covering? (current.ts - t.window)
  Burst.between? current reference pip gap t

theorem firedBy_eq_filterMap (e : EdgeSettings) (s : Series) (pip : Float) :
    firedBy e s pip = e.triggers.filterMap (s.burst? pip e.gap) := by
  unfold firedBy Series.burst?
  cases s.latest? with
  | none => simp
  | some current => rfl

/-- A burst at the end of a series is of the trigger that was asked. -/
theorem Series.trigger_eq_of_burst? {s : Series} {pip : Float} {gap : Int} {t : Trigger} {b : Burst}
    (h : s.burst? pip gap t = some b) : b.trigger = t := by
  unfold Series.burst? at h
  obtain ⟨current, -, h⟩ := Option.bind_eq_some_iff.1 h
  obtain ⟨reference, -, h⟩ := Option.bind_eq_some_iff.1 h
  rw [Burst.between?, Option.ite_none_right_eq_some] at h
  exact trigger_eq_of_detect? h.2

/-- The bursts come in the order of their triggers. -/
theorem pairwise_firedBy {e : EdgeSettings}
    (sorted : e.triggers.Pairwise fun a b => (Trigger.priority a b).isLE = true) (series : Series)
    (pip : Float) :
    (firedBy e series pip).Pairwise fun a b => (Trigger.priority a.trigger b.trigger).isLE = true := by
  rw [firedBy_eq_filterMap]
  refine sorted.filterMap _ ?_
  intro t t' before b hb b' hb'
  rw [Series.trigger_eq_of_burst? hb, Series.trigger_eq_of_burst? hb']
  exact before

/-- A trigger of a minute or more looks back. -/
theorem Trigger.window_pos {t : Trigger} (h : 1 ≤ t.minutes) : 0 < t.window := by
  unfold window minute
  omega

namespace Scan

/-- The closes of the bars up to bar `i`, with their times. -/
def closingsUpTo (bars : Array Bar) (i : Nat) : List Point := (bars.map Bar.closing).toList.take (i + 1)

theorem closingsUpTo_eq {bars : Array Bar} {i : Nat} (hi : i < bars.size) :
    closingsUpTo bars i = (bars.map Bar.closing).toList.take i ++ [bars[i].closing] := by
  rw [closingsUpTo, List.take_add_one, List.getElem?_eq_getElem (by simpa using hi)]
  simp

theorem map_value_closingsUpTo (bars : Array Bar) (i : Nat) :
    (closingsUpTo bars i).map (·.value) = (closesUpTo bars i).toList := by
  simp only [closingsUpTo, closesUpTo, Array.toList_map, Array.toList_extract,
    List.extract_eq_take_drop, List.map_take, List.map_map, List.drop_zero, Nat.sub_zero]
  rfl

/-- What a scan finds at a bar, when its state is proper. -/
theorem triggersAt_eq {s : ScanSettings} (proper : s.state.Proper) {bars : Array Bar} {i : Nat}
    (hi : i < bars.size) (pip : Float) :
    ∃ state, s.state.compute (closesUpTo bars i) = .ok state ∧
      triggersAt s bars i pip = .ok ((bursts s bars pip i).map fun b => (b, state)) := by
  obtain ⟨state, hstate⟩ := proper.exists_compute (closesUpTo bars i)
  refine ⟨state, hstate, ?_⟩
  rw [triggersAt, if_neg (by omega)]
  dsimp only
  rw [burstsAt_eq, ← bursts, stateAt_eq s hi, hstate]
  cases bursts s bars pip i <;> rfl

section Filled

variable {s : ScanSettings} {bars : Array Bar} {i : Nat} (hi : i < bars.size)
  {series : Series} (filled : series.points.toList = closingsUpTo bars i)
include hi filled

theorem latest?_filled : series.latest? = some bars[i].closing := by
  rw [Series.latest?, ← Array.getLast?_toList, filled, closingsUpTo_eq hi, List.getLast?_concat]

/-- A look-up in the series finds what a search among the bars before finds: the bar itself is too
late to be found. -/
theorem covering?_filled (ascending : Bar.Ascending bars.toList) {length : Int} (back : 0 < length) :
    series.covering? (bars[i].ts - length)
      = reference? (bars.map Bar.closing) i (bars[i].ts - length) := by
  have sorted : Point.Ordered series.points.toList := by
    rw [filled]
    exact ascending.closings.of_sublist (List.take_sublist _ _)
  have late : [bars[i].closing].filter (fun p => p.ts ≤ bars[i].ts - length) = [] := by
    rw [List.filter_eq_nil_iff]
    simp
    omega
  rw [Series.covering?, Point.covering?_eq sorted, filled, closingsUpTo_eq hi,
    reference?_eq ascending.closings (by simp; omega), List.filter_append,
    late, List.append_nil]

/-- **Live matching fires where the scan does**, in its own order. -/
theorem firedBy_filled (ascending : Bar.Ascending bars.toList)
    (windows : ∀ t ∈ s.triggers, 1 ≤ t.minutes) (minTotal : Nat) (pips : PipSizes) (pip : Float) :
    firedBy (s.live minTotal pips) series pip
      = (Trigger.prioritize s.triggers).filterMap (burst? s bars pip i) := by
  rw [firedBy, latest?_filled hi filled]
  refine List.filterMap_congr fun t ht => ?_
  have back := Trigger.window_pos (windows t ((Trigger.prioritize_perm s.triggers).mem_iff.1 ht))
  rw [burst?, Array.getElem?_eq_getElem hi, Bar.closing_ts,
    covering?_filled hi filled ascending back]
  rfl

/-- The first burst is of the first trigger, in order of priority, that fires. -/
theorem exists_first (ascending : Bar.Ascending bars.toList)
    (windows : ∀ t ∈ s.triggers, 1 ≤ t.minutes) {minTotal : Nat} {pips : PipSizes} {pip : Float}
    {b : Burst} {rest : List Burst}
    (fires : firedBy (s.live minTotal pips) series pip = b :: rest) :
    ∃ earlier first later, Trigger.prioritize s.triggers = earlier ++ first :: later ∧
      (∀ t ∈ earlier, ∀ b, ¬ Fires bars pip s.gap i t b) ∧ Fires bars pip s.gap i first b := by
  rw [firedBy_filled hi filled ascending windows] at fires
  obtain ⟨earlier, first, later, order, quiet, here, -⟩ := List.filterMap_eq_cons_iff.1 fires
  refine ⟨earlier, first, later, order, ?_, (burst?_eq_some_iff ascending).1 here⟩
  intro t ht b' sooner
  have nothing := quiet t ht
  rw [(burst?_eq_some_iff ascending).2 sooner] at nothing
  cases nothing

/-- As bursts without an order, those of live matching are those of the scan. -/
theorem firedBy_perm (ascending : Bar.Ascending bars.toList)
    (windows : ∀ t ∈ s.triggers, 1 ≤ t.minutes) (minTotal : Nat) (pips : PipSizes) (pip : Float) :
    (firedBy (s.live minTotal pips) series pip).Perm (bursts s bars pip i) := by
  rw [firedBy_filled hi filled ascending windows]
  exact (Trigger.prioritize_perm s.triggers).filterMap _

omit hi in
/-- The live state is the state of the closes up to the bar. -/
theorem compute_filled (apart : Point.OnePerMinute (bars.map Bar.closing).toList) (t : StateSpec) :
    t.compute (recentMinuteCloses series.points t.lookback).toArray
      = t.compute (closesUpTo bars i) := by
  have alone : Point.OnePerMinute series.points.toList := by
    rw [filled]
    exact List.Pairwise.sublist (List.take_sublist _ _) apart
  rw [compute_recentMinuteCloses, minuteCloses_of_onePerMinute alone, filled,
    map_value_closingsUpTo]

end Filled

/-- **A scan and live matching see the same event.** The triggers that fire live at the end of a
series of closes are those that fire at the last of the bars, with the same moves, and the state is the
same: that of all closes. -/
theorem live_perm_triggersAt {s : ScanSettings} {symbol : String} {bars : Array Bar}
    (valid : validate symbol bars = .ok ())
    (apart : Point.OnePerMinute (bars.map Bar.closing).toList)
    (windows : ∀ t ∈ s.triggers, 1 ≤ t.minutes) (proper : s.state.Proper) {i : Nat}
    (hi : i < bars.size) {series : Series} (filled : series.points.toList = closingsUpTo bars i)
    (minTotal : Nat) (pips : PipSizes) (pip : Float) :
    ∃ state found,
      s.state.compute (recentMinuteCloses series.points s.state.lookback).toArray = .ok state ∧
      s.state.compute (closesUpTo bars i) = .ok state ∧
      triggersAt s bars i pip = .ok found ∧ (∀ f ∈ found, f.2 = state) ∧
      (firedBy (s.live minTotal pips) series pip).Perm (found.map Prod.fst) ∧
      ∀ b, b ∈ firedBy (s.live minTotal pips) series pip ↔
        ∃ t ∈ s.triggers, Fires bars pip s.gap i t b := by
  have ascending := (validate_eq_ok_iff.1 valid).2
  obtain ⟨state, hstate, found⟩ := triggersAt_eq proper hi pip
  have same := firedBy_perm hi filled ascending windows minTotal pips pip
  refine ⟨state, _, (compute_filled filled apart s.state).trans hstate, hstate, found, ?_, ?_, ?_⟩
  · intro f hf
    obtain ⟨b, -, rfl⟩ := List.mem_map.1 hf
    rfl
  · rw [List.map_map]
    show List.Perm _ ((bursts s bars pip i).map id)
    rw [List.map_id]
    exact same
  · intro b
    rw [same.mem_iff]
    exact mem_bursts_iff ascending

theorem jump_apart : Point.OnePerMinute (jump.map Bar.closing).toList := by
  unfold Point.OnePerMinute
  decide +kernel

/-- The first two closes of the jump in a series. -/
theorem exists_jump_pushed :
    ∃ series, (Series.new 600000 100).pushAll (closingsUpTo jump 1) = .ok series ∧
      series.size = 2 := by
  have computed : ((Series.new 600000 100).pushAll (closingsUpTo jump 1)).toOption.any
      (fun series => series.size = 2) = true := by decide +kernel
  obtain ⟨series, pushed, size⟩ := exists_ok_of_any computed
  exact ⟨series, pushed, of_decide_eq_true size⟩

end Scan

end FxPulse
