import FxPulse.Proofs.Scan.Counts

/-!
# `Proofs/Scan/Whole.lean` — a scan is all or nothing

Bars are looked at before anything is counted, and whether the scan has been called off only while it
counts. That puts the three ends of a scan in an order:

> a scan names the first bar that cannot be scanned, whatever comes after it and whoever calls it off; if
> there is none, it is cancelled if a look sees it called off; and if none does, its answer is the answer
> of all bars, and the same as if nobody could call it off.

What has been counted when a look sees the scan called off is lost with it. `run_eq_of_unseen` says what is
counted when no look does, and `run_of_seen` that all of it is needed.
-/

set_option autoImplicit false

namespace FxPulse.Scan

/-! ## The first bar that cannot be scanned -/

/-- A price of the bar at a place is no finite number greater than zero, or the bar is not after the one
before it. -/
def Defective (bars : Array Bar) (k : Nat) : Prop :=
  ∃ bar, bars[k]? = some bar ∧
    (¬ bar.Sound ∨ ∃ j previous, k = j + 1 ∧ bars[j]? = some previous ∧ bar.ts ≤ previous.ts)

/-- The first bar that is so. -/
def FirstDefective (bars : Array Bar) (k : Nat) : Prop :=
  Defective bars k ∧ ∀ j < k, ¬ Defective bars j

theorem FirstDefective.unique {bars : Array Bar} {k other : Nat} (h : FirstDefective bars k)
    (hOther : FirstDefective bars other) : k = other := by
  rcases Nat.lt_trichotomy k other with before | same | behind
  · exact absurd h.1 (hOther.2 k before)
  · exact same
  · exact absurd hOther.1 (h.2 other behind)

/-- Bars behind a place do not matter to it. -/
theorem defective_append {front back : List Bar} {k : Nat} (h : k < front.length) :
    Defective (front ++ back).toArray k ↔ Defective front.toArray k := by
  have own : (front ++ back).toArray[k]? = front.toArray[k]? := by
    simp [List.getElem?_append_left h]
  have before : ∀ j, k = j + 1 → (front ++ back).toArray[j]? = front.toArray[j]? := by
    intro j next
    simp [List.getElem?_append_left (show j < front.length by omega)]
  unfold Defective
  rw [own]
  refine exists_congr fun bar => and_congr_right fun _ => or_congr_right ?_
  refine exists_congr fun j => exists_congr fun previous => and_congr_right fun next => ?_
  rw [before j next]

theorem not_defective_of_valid {symbol : String} {bars : Array Bar}
    (valid : validate symbol bars = .ok ()) (k : Nat) : ¬ Defective bars k := by
  obtain ⟨sound, ascending⟩ := validate_eq_ok_iff.1 valid
  rintro ⟨bar, here, bad | ⟨j, previous, rfl, before, late⟩⟩
  · exact bad (sound bar (Array.mem_toList_iff.2 (Array.mem_of_getElem? here)))
  · obtain ⟨hk, rfl⟩ := Array.getElem?_eq_some_iff.1 here
    obtain ⟨hj, rfl⟩ := Array.getElem?_eq_some_iff.1 before
    exact absurd (ascending.lt (Nat.lt_succ_self j) hk) (Int.not_lt.2 late)

/-- **What is refused is the first defective bar.** -/
theorem firstDefective_of_validate {symbol : String} {bars : Array Bar} {cause : Failure}
    (refused : validate symbol bars = .error cause) :
    ∃ k reason, cause = .scanAborted symbol k reason ∧ FirstDefective bars k := by
  obtain ⟨front, bar, back, reason, split, valid, wrong, rfl⟩ := validateFrom_eq_error_iff.1 refused
  rw [Option.or_none] at wrong
  obtain rfl : bars = (front ++ bar :: back).toArray := by rw [← split]
  refine ⟨front.length, reason, by rw [Nat.zero_add], ?_, fun j hj => ?_⟩
  · refine ⟨bar, by simp, ?_⟩
    by_contra fine
    obtain ⟨sound, after⟩ := not_or.1 fine
    have right : defect? front.getLast? bar = none := by
      refine defect?_eq_none_iff.2 ⟨not_not.1 sound, fun previous last => ?_⟩
      rw [Option.mem_def, List.getLast?_eq_getElem?] at last
      obtain ⟨inside, -⟩ := List.getElem?_eq_some_iff.1 last
      refine Int.not_le.1 fun late => after ⟨front.length - 1, previous, by omega, ?_, late⟩
      simpa [List.getElem?_append_left inside] using last
    rw [right] at wrong
    cases wrong
  · rw [defective_append hj]
    have sound : validate symbol front.toArray = .ok () := valid
    exact not_defective_of_valid sound j

theorem validate_eq_ok_iff_forall {symbol : String} {bars : Array Bar} :
    validate symbol bars = .ok () ↔ ∀ k, ¬ Defective bars k := by
  refine ⟨not_defective_of_valid, fun fine => ?_⟩
  cases validated : validate symbol bars with
  | ok done => rfl
  | error cause =>
    obtain ⟨k, reason, -, first⟩ := firstDefective_of_validate validated
    exact absurd first.1 (fine k)

/-- A refusal holds of all bars that begin in the same way. -/
theorem validate_of_scanAborted {symbol : String} {bars : Array Bar} {k : Nat} {reason : BarDefect}
    (refused : validate symbol bars = .error (.scanAborted symbol k reason)) (more : Array Bar) :
    validate symbol (bars.extract 0 (k + 1) ++ more) = .error (.scanAborted symbol k reason) := by
  obtain ⟨front, bar, back, defect, split, valid, wrong, same⟩ := validateFrom_eq_error_iff.1 refused
  obtain ⟨-, rfl, rfl⟩ := Failure.scanAborted.inj same
  refine validateFrom_eq_error_iff.2 ⟨front, bar, more.toList, reason, ?_, valid, wrong, same⟩
  simp [split, List.extract_eq_take_drop, List.take_append]

/-! ## A scan that is called off -/

section Run

variable {s : ScanSettings} {cancelled : Nat → Bool} {symbol : String} {bars : Array Bar}

theorem run_of_validate_error {cause : Failure} (refused : validate symbol bars = .error cause)
    (pip : Float) : run s cancelled symbol bars pip = .error cause := by
  rw [run, refused]
  rfl

theorem step_of_seen {i : Nat} (due : i % checkEvery = 0) (off : cancelled i = true)
    {closings : Array Point} {pip : Float} (scan : InstrumentScan) :
    step s cancelled bars closings pip scan i = .error (.cancelled scan.symbol) := by
  rw [step, if_pos (by rw [decide_eq_true due, off]; rfl)]
  rfl

/-- **A look that sees the scan called off ends it**, and nothing is left of what was counted. -/
theorem run_of_seen (valid : validate symbol bars = .ok ())
    (forward : ∀ o ∈ s.outcomes, 0 ≤ o.minutes) (proper : s.state.Proper)
    (seen : ∃ i < bars.size, i % checkEvery = 0 ∧ cancelled i = true) (pip : Float) :
    run s cancelled symbol bars pip = .error (.cancelled symbol) := by
  obtain ⟨i, hi, look⟩ := seen
  -- Up to the first such look the scan goes on as if there were none.
  obtain ⟨front, first, back, split, ⟨due, off⟩, before⟩ :=
    exists_first_of_mem (p := fun i => i % checkEvery = 0 ∧ cancelled i = true)
      ⟨i, List.mem_range.2 hi, look⟩
  have answers : ∀ j ∈ front, casesAt s bars (bars.map Bar.closing) pip j
      = .ok ((bursts s bars pip j).length, samplesAt s bars pip j) := by
    intro j hj
    have inside : j ∈ List.range bars.size := split ▸ List.mem_append_left _ hj
    exact casesAt_eq (ascending_of_valid valid) forward proper pip (List.mem_range.1 inside)
  have unseen : ∀ j ∈ front, j % checkEvery = 0 → cancelled j = false :=
    fun j hj due => Bool.not_eq_true _ ▸ fun off => before j hj ⟨due, off⟩
  rw [run, valid]
  show (List.range bars.size).foldlM _ _ = _
  rw [split]
  exact foldlM_eq_error (foldlM_step unseen answers _) (step_of_seen due off _)

end Run

/-! ## The three ends of a scan -/

section Ends

variable {s : ScanSettings} (forward : ∀ o ∈ s.outcomes, 0 ≤ o.minutes) (proper : s.state.Proper)
  (cancelled : Nat → Bool) (symbol : String) (bars : Array Bar) (pip : Float)
include forward proper

/-- Only the bars themselves abort a scan. -/
theorem run_scanAborted_iff {k : Nat} {reason : BarDefect} :
    run s cancelled symbol bars pip = .error (.scanAborted symbol k reason) ↔
      validate symbol bars = .error (.scanAborted symbol k reason) := by
  refine ⟨fun aborted => ?_, fun refused => run_of_validate_error refused pip⟩
  cases validated : validate symbol bars with
  | error cause =>
    rw [run_of_validate_error validated] at aborted
    rw [Except.error.inj aborted]
  | ok done =>
    by_cases seen : ∃ i < bars.size, i % checkEvery = 0 ∧ cancelled i = true
    · rw [run_of_seen validated forward proper seen] at aborted
      cases aborted
    · have unseen : ∀ i < bars.size, i % checkEvery = 0 → cancelled i = false :=
        fun i hi due => Bool.not_eq_true _ ▸ fun off => seen ⟨i, hi, due, off⟩
      rw [run_eq_of_unseen validated forward proper unseen] at aborted
      cases aborted

/-- **A scan is all or nothing.** Whatever the bars are and whenever the scan is called off, if horizons do
not look back and the state is proper: the scan is aborted at a place exactly if the bar there is the first
one with a price that is no finite number greater than zero or a time that is not after that of the bar
before it, and that stays so, with the reason given, whatever follows the bar and whoever calls the scan
off. If there is no such bar, and a look at one of the bars at which the scan looks sees it called off, it
is cancelled. If none does, it has an answer, the same as if nobody could call it off, and every bar is in
it: it counts the bursts and the samples of them all. -/
theorem run_allOrNothing :
    (∀ k, (∃ reason, run s cancelled symbol bars pip = .error (.scanAborted symbol k reason)) ↔
      Defective bars k ∧ ∀ j < k, ¬ Defective bars j) ∧
    (∀ k reason, run s cancelled symbol bars pip = .error (.scanAborted symbol k reason) →
      ∀ (other : Nat → Bool) (more : Array Bar),
        run s other symbol (bars.extract 0 (k + 1) ++ more) pip
          = .error (.scanAborted symbol k reason)) ∧
    ((∀ k, ¬ Defective bars k) → (∃ i < bars.size, i % checkEvery = 0 ∧ cancelled i = true) →
      run s cancelled symbol bars pip = .error (.cancelled symbol)) ∧
    ((∀ k, ¬ Defective bars k) → (∀ i < bars.size, i % checkEvery = 0 → cancelled i = false) →
      ∃ scan, run s cancelled symbol bars pip = .ok scan ∧
        run s (fun _ => false) symbol bars pip = .ok scan ∧ scan.bars = bars.size ∧
        ∃ fired samples,
          (∀ i < bars.size,
            casesAt s bars (bars.map Bar.closing) pip i = .ok (fired i, samples i)) ∧
          scan.fired = ((List.range bars.size).map fired).sum ∧
          scan.tally = Tally.addAll ∅ ((List.range bars.size).flatMap samples)) := by
  refine ⟨fun k => ?_, fun k reason aborted other more => ?_, fun fine seen => ?_, fun fine unseen => ?_⟩
  · simp only [run_scanAborted_iff forward proper]
    constructor
    · rintro ⟨reason, refused⟩
      obtain ⟨place, _, same, first⟩ := firstDefective_of_validate refused
      obtain ⟨-, rfl, -⟩ := Failure.scanAborted.inj same
      exact first
    · intro first
      cases validated : validate symbol bars with
      | ok done => exact absurd first.1 (not_defective_of_valid validated k)
      | error cause =>
        obtain ⟨place, reason, rfl, found⟩ := firstDefective_of_validate validated
        obtain rfl := FirstDefective.unique first found
        exact ⟨reason, rfl⟩
  · rw [run_scanAborted_iff forward proper] at aborted ⊢
    exact validate_of_scanAborted aborted more
  · exact run_of_seen (validate_eq_ok_iff_forall.2 fine) forward proper seen pip
  · have valid : validate symbol bars = .ok () := validate_eq_ok_iff_forall.2 fine
    refine ⟨_, run_eq_of_unseen valid forward proper unseen pip,
      run_eq valid forward proper (fun _ => rfl) pip, rfl, fun i => (bursts s bars pip i).length,
      samplesAt s bars pip, fun i hi => ?_, rfl, rfl⟩
    exact casesAt_eq (ascending_of_valid valid) forward proper pip hi

end Ends

end FxPulse.Scan
