import FxPulse.Proofs.Scan.Bars
import FxPulse.Proofs.State.Lookback

/-!
# `Proofs/Scan/Back.lean` — what a scan sees of the past

When a trigger fires is said here without a search. A bar has at most one *reference* over a length of
time: of the bars before it, the last one that is at least that long ago. A trigger *fires* at a bar
when the reference over its window is not too long ago, and the move from the one close to the other is
a burst.

> `Scan.burstsAt` asks each trigger in turn whether it fires (`burst?_eq_some_iff`), and
> `Scan.stateAt` is the state of all closes up to the bar (`stateAt_eq`).

A scan hands its state fewer closes than that; that it may is `Proofs/State/Lookback.lean`.
-/

set_option autoImplicit false

namespace FxPulse.Scan

/-! ## References -/

/-- Of the bars before bar `i`, bar `j` is the last one that is at least `length` before it. -/
def IsReference (bars : Array Bar) (length : Int) (i j : Nat) : Prop :=
  ∃ (hi : i < bars.size) (hj : j < i), bars[j].ts ≤ bars[i].ts - length ∧
    ∀ (k : Nat) (_ : j < k) (_ : k < i), bars[i].ts - length < bars[k].ts

theorem reference?_eq {closings : Array Point} (sorted : Point.Ordered closings.toList) {i : Nat}
    (within : i ≤ closings.size) (ts : Int) :
    reference? closings i ts = ((closings.toList.take i).filter fun p => p.ts ≤ ts).getLast? :=
  (Point.getLast?_filter_take sorted within ts).symm

theorem reference?_eq_some_iff {closings : Array Point} (sorted : Point.Ordered closings.toList)
    {i : Nat} (within : i ≤ closings.size) {ts : Int} {p : Point} :
    reference? closings i ts = some p ↔
      ∃ (j : Nat) (_ : j < closings.size), j < i ∧ closings[j] = p ∧ closings[j].ts ≤ ts ∧
        ∀ (k : Nat) (_ : k < closings.size), j < k → k < i → ts < closings[k].ts := by
  have bound := Point.countBefore_le closings i (· ≤ ts)
  have place := fun k hk => Point.lt_countBefore_iff sorted (Point.down_le ts) within (i := k) hk
  simp only [decide_eq_true_eq] at place
  rw [reference?]
  revert bound place
  generalize Point.countBefore closings i (fun t => decide (t ≤ ts)) = count
  intro bound place
  cases count with
  | zero =>
    simp only [reduceCtorEq, false_iff]
    rintro ⟨j, _, hj, -, early, -⟩
    exact absurd ((place j hj).2 early) (by omega)
  | succ count =>
    dsimp only
    rw [Array.getElem?_eq_getElem (by omega), Option.some_inj]
    constructor
    · intro same
      refine ⟨count, by omega, by omega, same, (place count (by omega)).1 (by omega), ?_⟩
      intro k _ hjk hk
      exact Int.not_le.1 fun early => absurd ((place k hk).2 early) (by omega)
    · rintro ⟨j, _, hj, same, early, last⟩
      -- The last place counted and `j` are both the last one that is early enough.
      have counted : j < count + 1 := (place j hj).2 early
      have reached : ¬ j < count := by
        intro before
        have held := (place count (by omega)).1 (by omega)
        have late := last count (by omega) before (by omega)
        omega
      obtain rfl : count = j := by omega
      exact same

/-! ## Bursts -/

/-- The trigger fires at bar `i`, with the burst. -/
def Fires (bars : Array Bar) (pip : Float) (gap : Int) (i : Nat) (t : Trigger) (b : Burst) : Prop :=
  ∃ (hi : i < bars.size) (j : Nat) (hj : j < i), IsReference bars t.window i j ∧
    bars[i].ts - bars[j].ts ≤ t.window + gap ∧
      Burst.detect? bars[i].close bars[j].close pip t = some b

/-- The burst of one trigger at a bar. -/
def burst? (s : ScanSettings) (bars : Array Bar) (pip : Float) (i : Nat) (t : Trigger) :
    Option Burst := do
  let bar ← bars[i]?
  let reference ← reference? (bars.map Bar.closing) i (bar.ts - t.window)
  Burst.between? bar.closing reference pip s.gap t

theorem burstsAt_eq (s : ScanSettings) (bars : Array Bar) (pip : Float) (i : Nat) :
    burstsAt s (bars.map Bar.closing) pip i = s.triggers.filterMap (burst? s bars pip i) := by
  unfold burstsAt burst?
  rw [Array.getElem?_map]
  cases bars[i]? with
  | none =>
    symm
    rw [Option.map_none, List.filterMap_eq_nil_iff]
    exact fun _ _ => rfl
  | some bar => rfl

/-- **A trigger has a burst at a bar exactly when it fires there.** -/
theorem burst?_eq_some_iff {s : ScanSettings} {bars : Array Bar}
    (ascending : Bar.Ascending bars.toList) {pip : Float} {i : Nat} {t : Trigger} {b : Burst} :
    burst? s bars pip i t = some b ↔ Fires bars pip s.gap i t b := by
  unfold burst?
  by_cases hi : i < bars.size
  · rw [Array.getElem?_eq_getElem hi, Option.bind_eq_bind, Option.bind_some,
      Option.bind_eq_bind, Option.bind_eq_some_iff]
    constructor
    · rintro ⟨reference, found, between⟩
      obtain ⟨j, _, hj, rfl, early, last⟩ :=
        (reference?_eq_some_iff ascending.closings (by simp; omega)).1 found
      simp only [Array.size_map, Array.getElem_map, Bar.closing] at early last between
      rw [Burst.between?, Option.ite_none_right_eq_some] at between
      exact ⟨hi, j, hj, ⟨hi, hj, early, fun k hjk hk => last k (by omega) hjk hk⟩,
        of_decide_eq_true between.1, between.2⟩
    · rintro ⟨_, j, hj, ⟨_, _, early, last⟩, spans, detected⟩
      refine ⟨bars[j].closing, ?_, ?_⟩
      · refine (reference?_eq_some_iff ascending.closings (by simp; omega)).2
          ⟨j, by simp; omega, hj, by simp, by simpa [Bar.closing] using early, fun k _ hjk hk => ?_⟩
        simpa [Bar.closing] using last k hjk hk
      · exact (if_pos (decide_eq_true spans)).trans detected
  · rw [Array.getElem?_eq_none (by omega)]
    simp only [Option.bind_eq_bind, Option.bind_none, reduceCtorEq, false_iff]
    rintro ⟨within, -⟩
    exact hi within

/-- A trigger fires with one burst only. -/
theorem Fires.unique {bars : Array Bar} {pip : Float} {gap : Int} {i : Nat} {t : Trigger}
    {b b' : Burst} (h : Fires bars pip gap i t b) (h' : Fires bars pip gap i t b') : b = b' := by
  obtain ⟨hi, j, hj, ⟨_, _, early, last⟩, _, detected⟩ := h
  obtain ⟨_, j', hj', ⟨_, _, early', last'⟩, _, detected'⟩ := h'
  rcases Nat.lt_trichotomy j j' with lt | rfl | gt
  · exact absurd early' (Int.not_le.2 (last j' lt hj'))
  · exact Option.some_inj.1 (detected.symm.trans detected')
  · exact absurd early (Int.not_le.2 (last' j gt hj))

/-- A burst is of the trigger that fired. -/
theorem trigger_eq_of_detect? {current reference pip : Float} {t : Trigger} {b : Burst}
    (h : Burst.detect? current reference pip t = some b) : b.trigger = t := by
  unfold Burst.detect? at h
  dsimp only at h
  split at h
  · cases h
  · obtain ⟨direction, -, rfl⟩ := Option.map_eq_some_iff.1 h
    rfl

theorem Fires.trigger_eq {bars : Array Bar} {pip : Float} {gap : Int} {i : Nat} {t : Trigger}
    {b : Burst} (h : Fires bars pip gap i t b) : b.trigger = t := by
  obtain ⟨hi, j, hj, -, -, detected⟩ := h
  exact trigger_eq_of_detect? detected

/-! ## States -/

/-- The closes of the bars up to bar `i`. -/
def closesUpTo (bars : Array Bar) (i : Nat) : Array Float := (bars.extract 0 (i + 1)).map (·.close)

/-- **The state at a bar is the state of all closes up to it.** -/
theorem stateAt_eq (s : ScanSettings) {bars : Array Bar} {i : Nat} (hi : i < bars.size) :
    stateAt s (bars.map Bar.closing) i = s.state.compute (closesUpTo bars i) := by
  rw [stateAt, ← StateSpec.compute_recent s.state (closesUpTo bars i)]
  congr 1
  apply Array.toList_inj.1
  have size : (closesUpTo bars i).size = i + 1 := by simp [closesUpTo]; omega
  rw [StateSpec.recent, size]
  simp only [closesUpTo, Array.toList_map, Array.toList_extract, List.extract_eq_take_drop,
    ← List.map_take, ← List.map_drop, List.map_map, List.drop_zero, Nat.sub_zero]
  congr 1
  rw [List.take_drop, List.take_drop, List.take_take]
  congr 2
  omega

end FxPulse.Scan
