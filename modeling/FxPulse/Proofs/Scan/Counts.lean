import FxPulse.Proofs.Scan.Sums

/-!
# `Proofs/Scan/Counts.lean` — a scan counts cases

The whole scan against its meaning. `run_eq` opens the loop: a scan that is not called off takes in
bar after bar, so its tally is that of all samples of all bars. The main theorem then says what stands
in the tally without any list:

> under a key stand the number of cases that count for it and the number of those that succeeded, and
> the key is there only if there is such a case.

The invariant of the loop is in `foldlM_step`. It speaks of the samples taken in, not of what they
count for, so that it holds bar by bar without a word about triggers, outcomes and levels.
-/

set_option autoImplicit false

namespace FxPulse.Scan

/-! ## The loop -/

/-- A scan over some bars that all have an answer, and that no look calls off, adds up what they
contribute. -/
theorem foldlM_step {s : ScanSettings} {cancelled : Nat → Bool} {bars : Array Bar}
    {closings : Array Point} {pip : Float} {fired : Nat → Nat} {samples : Nat → List Sample}
    {places : List Nat} (unseen : ∀ i ∈ places, i % checkEvery = 0 → cancelled i = false)
    (answers : ∀ i ∈ places, casesAt s bars closings pip i = .ok (fired i, samples i))
    (scan : InstrumentScan) :
    places.foldlM (step s cancelled bars closings pip) scan
      = .ok { scan with
          fired := scan.fired + (places.map fired).sum
          tally := scan.tally.addAll (places.flatMap samples) } := by
  induction places generalizing scan with
  | nil => rfl
  | cons i rest ih =>
    obtain ⟨unlooked, unseen⟩ := List.forall_mem_cons.1 unseen
    obtain ⟨answer, answers⟩ := List.forall_mem_cons.1 answers
    have goesOn : ¬ (decide (i % checkEvery = 0) && cancelled i) = true := by
      rw [Bool.and_eq_true, decide_eq_true_eq, not_and, Bool.not_eq_true]
      exact unlooked
    have taken : step s cancelled bars closings pip scan i
        = .ok { scan with fired := scan.fired + fired i, tally := scan.tally.addAll (samples i) } := by
      rw [step, if_neg goesOn, answer]
      rfl
    rw [List.foldlM_cons, taken]
    refine (ih unseen answers _).trans ?_
    simp only [List.map_cons, List.sum_cons, List.flatMap_cons, Tally.addAll, List.foldl_append,
      Nat.add_assoc]

/-- The samples of all bars. -/
def samples (s : ScanSettings) (bars : Array Bar) (pip : Float) : List Sample :=
  (List.range bars.size).flatMap (samplesAt s bars pip)

section Run

variable {s : ScanSettings} {symbol : String} {bars : Array Bar} {cancelled : Nat → Bool}
  (valid : validate symbol bars = .ok ()) (forward : ∀ o ∈ s.outcomes, 0 ≤ o.minutes)
  (proper : s.state.Proper)
include valid

theorem ascending_of_valid : Bar.Ascending bars.toList := (validate_eq_ok_iff.1 valid).2

include forward proper

/-- **A scan that no look calls off** has an answer, and takes in every bar. -/
theorem run_eq_of_unseen (unseen : ∀ i < bars.size, i % checkEvery = 0 → cancelled i = false)
    (pip : Float) :
    run s cancelled symbol bars pip = .ok
      { symbol
        bars := bars.size
        fired := ((List.range bars.size).map fun i => (bursts s bars pip i).length).sum
        tally := Tally.addAll ∅ (samples s bars pip) } := by
  have answers : ∀ i ∈ List.range bars.size,
      casesAt s bars (bars.map Bar.closing) pip i
        = .ok ((bursts s bars pip i).length, samplesAt s bars pip i) :=
    fun i hi => casesAt_eq (ascending_of_valid valid) forward proper pip (List.mem_range.1 hi)
  rw [run, valid]
  refine (foldlM_step (fun i hi => unseen i (List.mem_range.1 hi)) answers _).trans ?_
  rw [Nat.zero_add, samples]

theorem run_eq (uncancelled : ∀ i, cancelled i = false) (pip : Float) :
    run s cancelled symbol bars pip = .ok
      { symbol
        bars := bars.size
        fired := ((List.range bars.size).map fun i => (bursts s bars pip i).length).sum
        tally := Tally.addAll ∅ (samples s bars pip) } :=
  run_eq_of_unseen valid forward proper (fun i _ _ => uncancelled i) pip

end Run

/-! ## What the tally holds -/

namespace Case

/-- A case that counts has a bar, a trigger and an outcome. -/
theorem CountsFor.bounded {s : ScanSettings} {bars : Array Bar} {pip : Float} {key : RowKey} {c : Case}
    (h : c.CountsFor s bars pip key) :
    c.bar < bars.size ∧ c.trigger < s.triggers.length ∧ c.outcome < s.outcomes.length := by
  obtain ⟨t, o, b, state, ht, ho, ⟨hi, -⟩, -⟩ := h
  exact ⟨hi, (List.getElem?_eq_some_iff.1 ht).1, (List.getElem?_eq_some_iff.1 ho).1⟩

theorem finite_countsFor (s : ScanSettings) (bars : Array Bar) (pip : Float) (key : RowKey) :
    {c : Case | c.CountsFor s bars pip key}.Finite :=
  (Finset.finite_toSet _).subset fun _ counts => mem_cases counts.bounded

end Case

/-- The pairs of a bar and a trigger that go together have places. -/
theorem mem_fired {s : ScanSettings} {bars : Array Bar} {pip : Float} {p : Nat × Nat}
    (h : ∃ t b, s.triggers[p.2]? = some t ∧ Fires bars pip s.gap p.1 t b) :
    p ∈ Finset.range bars.size ×ˢ Finset.range s.triggers.length := by
  obtain ⟨t, b, ht, hi, -⟩ := h
  simpa using ⟨hi, (List.getElem?_eq_some_iff.1 ht).1⟩

section Tally

variable {s : ScanSettings} {bars : Array Bar} (ascending : Bar.Ascending bars.toList)
  (proper : s.state.Proper) (pip : Float)
include ascending proper

open scoped Classical in
theorem countP_samples (want : Bool → Bool) (key : RowKey) :
    (samples s bars pip).countP (Sample.isFor want key)
      = {c : Case | c.CountsFor s bars pip key ∧
          want (decide (c.Succeeds s bars pip key)) = true}.ncard := by
  rw [ncard_cases fun c hc => hc.1.bounded, samples, List.countP_flatMap]
  change (∑ i ∈ Finset.range bars.size, (samplesAt s bars pip i).countP _) = _
  refine Finset.sum_congr rfl fun i hi => ?_
  obtain ⟨state, hstate⟩ := proper.exists_compute (closesUpTo bars i)
  exact countP_samplesAt (Finset.mem_range.1 hi) hstate ascending want key

/-- The total of a key is the number of its cases. -/
theorem total_samples (key : RowKey) :
    (Tally.counts (Tally.addAll ∅ (samples s bars pip)) key).total
      = {c : Case | c.CountsFor s bars pip key}.ncard := by
  rw [Tally.counts_addAll_empty]
  refine (countP_samples ascending proper pip (fun _ => true) key).trans ?_
  simp

/-- The successes of a key are those of its cases that succeeded. -/
theorem successes_samples (key : RowKey) :
    (Tally.counts (Tally.addAll ∅ (samples s bars pip)) key).successes
      = {c : Case | c.CountsFor s bars pip key ∧ c.Succeeds s bars pip key}.ncard := by
  rw [Tally.counts_addAll_empty]
  refine (countP_samples ascending proper pip id key).trans ?_
  simp

end Tally

open scoped Classical in
/-- The bursts of all bars are as many as the bars and triggers that go together. -/
theorem sum_bursts {s : ScanSettings} {bars : Array Bar} (ascending : Bar.Ascending bars.toList)
    (pip : Float) :
    ((List.range bars.size).map fun i => (bursts s bars pip i).length).sum
      = {p : Nat × Nat | ∃ t b, s.triggers[p.2]? = some t ∧ Fires bars pip s.gap p.1 t b}.ncard := by
  rw [ncard_eq_sum _ fun p => mem_fired, Finset.sum_product]
  change (∑ i ∈ Finset.range bars.size, (bursts s bars pip i).length) = _
  exact Finset.sum_congr rfl fun i _ => length_bursts ascending pip i

/-- **A scan computes the declarative counts.** Whatever bars `validate` accepts: a bar's bursts are
those of the triggers that fire there, their number over all bars is the number of pairs of a bar and a
trigger that go together, and under every key stand the number of cases that count for it and the
number of those that succeeded. Only keys with a case are there. -/
theorem run_counts {s : ScanSettings} {symbol : String} {bars : Array Bar}
    (valid : validate symbol bars = .ok ()) (forward : ∀ o ∈ s.outcomes, 0 ≤ o.minutes)
    (proper : s.state.Proper) (cancelled : Nat → Bool) (uncancelled : ∀ i, cancelled i = false)
    (pip : Float) :
    (∀ i b, b ∈ burstsAt s (bars.map Bar.closing) pip i ↔
      ∃ t ∈ s.triggers, Fires bars pip s.gap i t b) ∧
    ∃ scan, run s cancelled symbol bars pip = .ok scan ∧ scan.symbol = symbol ∧
      scan.bars = bars.size ∧
      scan.fired
        = {p : Nat × Nat | ∃ t b, s.triggers[p.2]? = some t ∧ Fires bars pip s.gap p.1 t b}.ncard ∧
      ∀ key,
        (scan.tally.counts key).total = {c : Case | c.CountsFor s bars pip key}.ncard ∧
        (scan.tally.counts key).successes
          = {c : Case | c.CountsFor s bars pip key ∧ c.Succeeds s bars pip key}.ncard ∧
        (key ∈ scan.tally ↔ 1 ≤ (scan.tally.counts key).total) := by
  have ascending := ascending_of_valid valid
  refine ⟨fun i b => ?_, _, run_eq valid forward proper uncancelled pip, rfl, rfl,
    sum_bursts ascending pip, fun key => ⟨total_samples ascending proper pip key,
      successes_samples ascending proper pip key, ?_⟩⟩
  · rw [burstsAt_eq, ← bursts]
    exact mem_bursts_iff ascending
  · exact Tally.mem_addAll_empty

end FxPulse.Scan
