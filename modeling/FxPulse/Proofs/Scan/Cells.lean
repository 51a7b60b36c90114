import FxPulse.Proofs.Config.Checks
import FxPulse.Proofs.Scan.Counts
import FxPulse.Proofs.Scan.Rows

/-!
# `Proofs/Scan/Cells.lean` — how often a bar can count in one cell

A cell is named by labels, but a bar is gone through by the entries of the two grids. An entry of either grid
counts once; a label counts as often as there are entries with that label:

> in each stratum of states a bar counts once for each pair of a trigger and an outcome whose case it makes,
> in one direction at most (`countP_isIn_samplesAt`), and so at most as often as the grids hold pairs with the
> labels of the cell (`countP_isIn_samplesAt_le`).

Where no label comes up twice, a total is a number of bars. Grids are taken as they are written, though, and
what is written twice is counted twice.
-/

set_option autoImplicit false

namespace FxPulse

/-- The pairs of a trigger and an outcome that go under two labels. -/
def ScanSettings.labelled (s : ScanSettings) (trigger outcome : String) : Nat :=
  s.triggers.countP (fun t => t.label == trigger) * s.outcomes.countP (fun o => o.label == outcome)

/-- The sample counts for the labels and the state, in either direction. -/
def Sample.isIn (trigger outcome : String) (state : StateKey) (x : Sample) : Bool :=
  x.key.trigger == trigger && x.key.outcome == outcome && x.key.state == state

/-- No label stands for two entries of a grid. -/
def ScanSettings.Distinct (s : ScanSettings) : Prop :=
  (s.triggers.map (·.label)).Nodup ∧ (s.outcomes.map (·.label)).Nodup

instance (s : ScanSettings) : Decidable s.Distinct :=
  inferInstanceAs (Decidable ((s.triggers.map (·.label)).Nodup ∧ (s.outcomes.map (·.label)).Nodup))

theorem countP_eq_le_one {α : Type} {l : List α} {label : α → String} (nodup : (l.map label).Nodup)
    (text : String) : l.countP (fun a => label a == text) ≤ 1 := by
  have counted : l.countP (fun a => label a == text) = (l.map label).count text := by
    rw [List.count, List.countP_map]
    rfl
  rw [counted]
  exact List.nodup_iff_count_le_one.1 nodup text

theorem ScanSettings.Distinct.labelled_le_one {s : ScanSettings} (distinct : s.Distinct)
    (trigger outcome : String) : s.labelled trigger outcome ≤ 1 :=
  Nat.mul_le_mul (countP_eq_le_one distinct.1 trigger) (countP_eq_le_one distinct.2 outcome)

namespace Sample

/-- What is in a stratum is so in one of the two directions. -/
theorem countP_isIn (trigger outcome : String) (state : StateKey) (samples : List Sample) :
    samples.countP (isIn trigger outcome state)
      = samples.countP (isFor (fun _ => true) ⟨trigger, outcome, .up, state⟩)
        + samples.countP (isFor (fun _ => true) ⟨trigger, outcome, .down, state⟩) := by
  induction samples with
  | nil => rfl
  | cons x rest ih =>
    obtain ⟨⟨t, o, d, level⟩, success⟩ := x
    rw [List.countP_cons, List.countP_cons, List.countP_cons, ih]
    cases d <;> simp [isIn, isFor, and_assoc] <;> omega

theorem countP_isFor_le_isIn (key : RowKey) (samples : List Sample) :
    samples.countP (isFor (fun _ => true) key)
      ≤ samples.countP (isIn key.trigger key.outcome key.state) := by
  obtain ⟨trigger, outcome, direction, state⟩ := key
  rw [countP_isIn]
  cases direction with
  | up => exact Nat.le_add_right _ _
  | down => exact Nat.le_add_left _ _

end Sample

namespace Scan

/-- A case counts in the direction of its burst only. -/
theorem Case.CountsFor.direction_eq {s : ScanSettings} {bars : Array Bar} {pip : Float}
    {key other : RowKey} {c : Case} (h : c.CountsFor s bars pip key)
    (h' : c.CountsFor s bars pip other) : key.direction = other.direction := by
  obtain ⟨t, o, b, state, ht, -, fires, -, -, -, -, -, direction⟩ := h
  obtain ⟨t', o', b', state', ht', -, fires', -, -, -, -, -, direction'⟩ := h'
  obtain rfl : t = t' := Option.some_inj.1 (ht.symm.trans ht')
  rw [direction, direction', fires.unique fires']

/-- A trigger and an outcome, by their places, whose case at a bar counts for two labels and a state. -/
def InStratum (s : ScanSettings) (bars : Array Bar) (pip : Float) (i : Nat) (trigger outcome : String)
    (state : StateKey) (p : Nat × Nat) : Prop :=
  ∃ direction, Case.CountsFor s bars pip ⟨trigger, outcome, direction, state⟩ ⟨i, p.1, p.2⟩

/-- How many elements of a list pass a test, place by place. -/
theorem countP_eq_sum {α : Type} (l : List α) (test : α → Bool) :
    l.countP test
      = ∑ k ∈ Finset.range l.length, (l[k]?.map fun a => if test a then 1 else 0).getD 0 := by
  rw [← sum_map_eq]
  induction l with
  | nil => rfl
  | cons a rest ih => rw [List.countP_cons, ih, List.map_cons, List.sum_cons, Nat.add_comm]

section Bar

variable {s : ScanSettings} {bars : Array Bar} (pip : Float) {i : Nat}

theorem mem_places_of_inStratum {trigger outcome : String} {state : StateKey} {p : Nat × Nat}
    (h : InStratum s bars pip i trigger outcome state p) :
    p ∈ Finset.range s.triggers.length ×ˢ Finset.range s.outcomes.length := by
  obtain ⟨direction, counts⟩ := h
  obtain ⟨-, ht, ho⟩ := counts.bounded
  exact Finset.mem_product.2 ⟨Finset.mem_range.2 ht, Finset.mem_range.2 ho⟩

open scoped Classical in
/-- **A bar counts in a stratum once for each pair of a trigger and an outcome whose case it makes.** -/
theorem countP_isIn_samplesAt (ascending : Bar.Ascending bars.toList) (proper : s.state.Proper)
    (hi : i < bars.size) (trigger outcome : String) (state : StateKey) :
    (samplesAt s bars pip i).countP (Sample.isIn trigger outcome state)
      = {p | InStratum s bars pip i trigger outcome state p}.ncard := by
  obtain ⟨computed, hstate⟩ := proper.exists_compute (closesUpTo bars i)
  rw [Sample.countP_isIn, countP_samplesAt hi hstate ascending, countP_samplesAt hi hstate ascending,
    ncard_eq_sum _ fun p => mem_places_of_inStratum pip, Finset.sum_product, ← Finset.sum_add_distrib]
  refine Finset.sum_congr rfl fun k _ => ?_
  rw [← Finset.sum_add_distrib]
  refine Finset.sum_congr rfl fun l _ => ?_
  simp only [and_true]
  -- The two directions exclude each other.
  by_cases up : Case.CountsFor s bars pip ⟨trigger, outcome, .up, state⟩ ⟨i, k, l⟩
  · have not_down : ¬ Case.CountsFor s bars pip ⟨trigger, outcome, .down, state⟩ ⟨i, k, l⟩ :=
      fun down => Direction.noConfusion (up.direction_eq down)
    have counted : InStratum s bars pip i trigger outcome state (k, l) := ⟨.up, up⟩
    rw [if_pos up, if_neg not_down, if_pos counted]
  · by_cases down : Case.CountsFor s bars pip ⟨trigger, outcome, .down, state⟩ ⟨i, k, l⟩
    · have counted : InStratum s bars pip i trigger outcome state (k, l) := ⟨.down, down⟩
      rw [if_neg up, if_pos down, if_pos counted]
    · rw [if_neg up, if_neg down, if_neg]
      rintro ⟨direction, counts⟩
      cases direction with
      | up => exact up counts
      | down => exact down counts

open scoped Classical in
/-- The pairs whose case counts have the labels. -/
theorem ncard_inStratum_le (trigger outcome : String) (state : StateKey) :
    {p | InStratum s bars pip i trigger outcome state p}.ncard ≤ s.labelled trigger outcome := by
  rw [ncard_eq_sum _ fun p => mem_places_of_inStratum pip, ScanSettings.labelled, countP_eq_sum,
    countP_eq_sum, Finset.sum_mul_sum, Finset.sum_product]
  refine Finset.sum_le_sum fun k _ => Finset.sum_le_sum fun l _ => ?_
  by_cases counted : InStratum s bars pip i trigger outcome state (k, l)
  · obtain ⟨direction, t, o, b, computed, ht, ho, -, -, -, -, rfl, rfl, -⟩ := id counted
    rw [if_pos counted, ht, ho]
    simp
  · rw [if_neg counted]
    exact Nat.zero_le _

theorem countP_isIn_samplesAt_le (ascending : Bar.Ascending bars.toList) (proper : s.state.Proper)
    (hi : i < bars.size) (trigger outcome : String) (state : StateKey) :
    (samplesAt s bars pip i).countP (Sample.isIn trigger outcome state)
      ≤ s.labelled trigger outcome := by
  rw [countP_isIn_samplesAt pip ascending proper hi]
  exact ncard_inStratum_le pip trigger outcome state

/-- Over all bars, as often as there are bars. -/
theorem countP_samples_le (ascending : Bar.Ascending bars.toList) (proper : s.state.Proper)
    (key : RowKey) :
    (samples s bars pip).countP (Sample.isFor (fun _ => true) key)
      ≤ bars.size * s.labelled key.trigger key.outcome := by
  have each : ∀ n ∈ (List.range bars.size).map fun i =>
      (samplesAt s bars pip i).countP (Sample.isFor (fun _ => true) key),
      n ≤ s.labelled key.trigger key.outcome := by
    intro n mem
    obtain ⟨i, hi, rfl⟩ := List.mem_map.1 mem
    exact (Sample.countP_isFor_le_isIn key _).trans
      (countP_isIn_samplesAt_le pip ascending proper (List.mem_range.1 hi) _ _ _)
  rw [samples, List.countP_flatMap]
  refine (List.sum_le_card_nsmul _ _ each).trans_eq ?_
  rw [List.length_map, List.length_range, smul_eq_mul]

end Bar

/-- **A cell holds one case of a bar for each of its pairs of grid entries.** For every configuration that is
accepted and all bars that `validate` accepts, a scan that no look calls off has an answer. It counts what the
bars contribute one by one, and a bar contributes to two labels and a state, both directions together, one case
for each pair of a trigger and an outcome of the grids that counts for them, at most as many as go under these
labels. So every cell has one case or more, no more successes than cases, and no more cases than there are bars
for each of its pairs. If no label stands for two entries, a bar is one case of a cell at most, and a total is
at most the number of bars. -/
theorem load_cells {lookup : Config.Lookup} {c : Config} (loaded : Config.load lookup = .ok c)
    {symbol : String} {bars : Array Bar} (valid : validate symbol bars = .ok ()) (cancelled : Nat → Bool)
    (unseen : ∀ i < bars.size, i % checkEvery = 0 → cancelled i = false) (pip : Float) :
    ∃ scan samples, run c.scan cancelled symbol bars pip = .ok scan ∧
      scan.tally = Tally.addAll ∅ ((List.range bars.size).flatMap samples) ∧
      (∀ i < bars.size, (∃ fired,
          casesAt c.scan bars (bars.map Bar.closing) pip i = .ok (fired, samples i)) ∧
        ∀ trigger outcome state,
          (samples i).countP (Sample.isIn trigger outcome state)
              = {p | InStratum c.scan bars pip i trigger outcome state p}.ncard ∧
            (samples i).countP (Sample.isIn trigger outcome state) ≤ c.scan.labelled trigger outcome ∧
            (c.scan.Distinct → (samples i).countP (Sample.isIn trigger outcome state) ≤ 1)) ∧
      ∀ (key : RowKey) (counts : Counts), scan.tally[key]? = some counts →
        1 ≤ counts.total ∧ counts.successes ≤ counts.total ∧
          counts.total ≤ bars.size * c.scan.labelled key.trigger key.outcome ∧
          (c.scan.Distinct → counts.total ≤ bars.size) := by
  have ascending := ascending_of_valid valid
  have proper : c.scan.state.Proper := Config.load_proper loaded
  have forward : ∀ o ∈ c.scan.outcomes, 0 ≤ o.minutes :=
    fun o mem => Int.le_of_lt ((Config.load_reads loaded).whole.outcomes o mem)
  have answered := run_eq_of_unseen valid forward proper unseen pip
  refine ⟨_, samplesAt c.scan bars pip, answered, rfl, fun i hi => ⟨⟨_, casesAt_eq ascending forward proper
    pip hi⟩, fun trigger outcome state => ?_⟩, fun key counts held => ?_⟩
  · have bound := countP_isIn_samplesAt_le pip ascending proper hi trigger outcome state
    exact ⟨countP_isIn_samplesAt pip ascending proper hi trigger outcome state, bound,
      fun distinct => bound.trans (distinct.labelled_le_one trigger outcome)⟩
  · have own : Tally.counts (Tally.addAll ∅ (samples c.scan bars pip)) key = counts := by
      rw [Tally.counts, Std.ExtTreeMap.getD_eq_getD_getElem?, held, Option.getD_some]
    have entered : 1 ≤ counts.total := by
      rw [← own]
      exact Tally.mem_addAll_empty.1 (Std.ExtTreeMap.mem_iff_isSome_getElem?.2 (by rw [held]; rfl))
    have bound : counts.total ≤ bars.size * c.scan.labelled key.trigger key.outcome := by
      rw [← own, Tally.counts_addAll_empty]
      exact countP_samples_le pip ascending proper key
    refine ⟨entered, (run_sound answered key counts held).2, bound, fun distinct => bound.trans ?_⟩
    exact (Nat.mul_le_mul_left _ (distinct.labelled_le_one _ _)).trans_eq (Nat.mul_one _)

/-- Two grids, and no state. -/
def gridSetup (triggers outcomes : String) : Config.Lookup
  | "TRIGGER_GRID" => some triggers
  | "OUTCOME_GRID" => some outcomes
  | "STATE_RSI_PERIOD" => some "0"
  | "STATE_VOL_WINDOWS" => some ""
  | _ => none

/-- The cell of the jump. -/
def jumpCell : RowKey := ⟨"M8_W1", "K15_T1", .up, ∅⟩

/-- With both grids of one entry, the jump is one case. -/
theorem load_cells_once :
    ∃ c, Config.load (gridSetup "8:1" "15:1") = .ok c ∧ validate "EURUSD" jump = .ok () ∧
      (∀ i < jump.size, i % checkEvery = 0 → (fun _ => false) i = false) ∧ c.scan.Distinct ∧
      ∃ scan, run c.scan (fun _ => false) "EURUSD" jump 0.0001 = .ok scan ∧
        (scan.tally.counts jumpCell).total = 1 ∧
        ∀ (key : RowKey) (counts : Counts), scan.tally[key]? = some counts →
          1 ≤ counts.total ∧ counts.total ≤ 3 := by
  have computed : (Config.load (gridSetup "8:1" "15:1")).toOption.any (fun c =>
      decide c.scan.Distinct &&
        (run c.scan (fun _ => false) "EURUSD" jump 0.0001).toOption.any fun scan =>
          (scan.tally.counts jumpCell).total == 1) = true := by decide +kernel
  obtain ⟨c, loaded, computed⟩ := exists_ok_of_any computed
  obtain ⟨distinct, computed⟩ := Bool.and_eq_true_iff.1 computed
  have distinct : c.scan.Distinct := of_decide_eq_true distinct
  obtain ⟨scan, found, computed⟩ := exists_ok_of_any computed
  obtain ⟨scan', samples, answered, -, -, cells⟩ :=
    load_cells loaded jump_valid (fun _ => false) (fun _ _ _ => rfl) 0.0001
  obtain rfl : scan = scan' := Except.ok.inj (found.symm.trans answered)
  refine ⟨c, loaded, jump_valid, fun _ _ _ => rfl, distinct, scan, found, eq_of_beq computed,
    fun key counts held => ?_⟩
  obtain ⟨entered, -, -, bound⟩ := cells key counts held
  exact ⟨entered, bound distinct⟩

/-- With each entry written twice the configuration is accepted just so, and of the three bars of the jump the
second is four cases of one cell. -/
theorem load_cells_repeated :
    ∃ c, Config.load (gridSetup "8:1,8:1" "15:1,15:1") = .ok c ∧ validate "EURUSD" jump = .ok () ∧
      (∃ fired samples, casesAt c.scan jump (jump.map Bar.closing) 0.0001 1 = .ok (fired, samples) ∧
        samples.countP (Sample.isIn "M8_W1" "K15_T1" ∅) = 4) ∧
      ∃ scan counts, run c.scan (fun _ => false) "EURUSD" jump 0.0001 = .ok scan ∧
        scan.tally[jumpCell]? = some counts ∧ scan.bars < counts.total := by
  have computed : (Config.load (gridSetup "8:1,8:1" "15:1,15:1")).toOption.any (fun c =>
      (casesAt c.scan jump (jump.map Bar.closing) 0.0001 1).toOption.any (fun found =>
        found.2.countP (Sample.isIn "M8_W1" "K15_T1" ∅) == 4) &&
        (run c.scan (fun _ => false) "EURUSD" jump 0.0001).toOption.any fun scan =>
          scan.tally[jumpCell]?.any fun counts => decide (scan.bars < counts.total)) = true := by
    decide +kernel
  obtain ⟨c, loaded, computed⟩ := exists_ok_of_any computed
  obtain ⟨second, computed⟩ := Bool.and_eq_true_iff.1 computed
  obtain ⟨⟨fired, samples⟩, contributed, four⟩ := exists_ok_of_any second
  obtain ⟨scan, found, computed⟩ := exists_ok_of_any computed
  obtain ⟨counts, held, more⟩ := (Option.any_eq_true _ _).1 computed
  exact ⟨c, loaded, jump_valid, ⟨fired, samples, contributed, eq_of_beq four⟩, scan, counts, found, held,
    of_decide_eq_true more⟩

end Scan

end FxPulse
