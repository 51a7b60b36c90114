import FxPulse.Proofs.Checked.Scans
import FxPulse.Proofs.Scan.Whole

/-!
# `Proofs/Checked/Counts.lean` — what a scan in words counts

Two things that hold of a scan with numbers of any size are brought over to the scan that runs. What is wrong
with a bar is seen without computing anything, so nothing is asked of numbers there. Counting looks back and
ahead, and takes words that hold the times it looks at.

> Where words hold what is computed, a scan of valid bars counts cases, and nothing but cases
> (`run_countsCases`).

> A scan names the first bar that cannot be scanned; and where words hold what is computed it is cancelled, or
> counts all bars (`run_threeEnds`).
-/

set_option autoImplicit false

namespace FxPulse.Checked

open FxPulse.Number FxPulse.Scan

/-! ## Cases -/

/-- **A scan counts cases.** If the bars are valid, horizons do not look back, the state is proper and words
hold what the scan computes: at each bar the bursts are those of the triggers that fire there; and if nobody
calls it off, the scan has an answer, in which are all bars, as many bursts as there are pairs of a bar and a
trigger that fires, and under each key the number of cases that count for it and of those that succeed. A key
is there exactly if a case is. -/
theorem run_countsCases {s : ScanSettings} {symbol : String} {bars : Array Bar}
    (valid : validate symbol bars = .ok ()) (forward : ∀ o ∈ s.outcomes, 0 ≤ o.minutes)
    (proper : s.state.Proper) (fits : s.Fits bars) (cancelled : Nat → Bool)
    (uncancelled : ∀ i, cancelled i = false) (b : Build) (pip : Float) :
    (∀ i < bars.size, ∃ found, fired b s (bars.map Bar.closing) pip i = .ok found ∧
      ∀ burst, burst ∈ found.map Prod.snd ↔ ∃ t ∈ s.triggers, Fires bars pip s.gap i t burst) ∧
    ∃ scan, run b s cancelled symbol bars pip = .ok scan ∧ scan.symbol = symbol ∧
      scan.bars = bars.size ∧
      scan.fired = {p : Nat × Nat | ∃ t burst, s.triggers[p.2]? = some t ∧
        Fires bars pip s.gap p.1 t burst}.ncard ∧
      ∀ key,
        (scan.tally.counts key).total = {c : Case | c.CountsFor s bars pip key}.ncard ∧
        (scan.tally.counts key).successes
          = {c : Case | c.CountsFor s bars pip key ∧ c.Succeeds s bars pip key}.ncard ∧
        (key ∈ scan.tally ↔ 1 ≤ (scan.tally.counts key).total) := by
  obtain ⟨bursts, scan, ran, counted⟩ := run_counts valid forward proper cancelled uncancelled pip
  refine ⟨fun i hi => ⟨_, fired_eq hi pip (fits.back _ (Array.getElem_mem hi)), fun burst => ?_⟩,
    scan, ?_, counted⟩
  · rw [map_snd_placed, Scan.bursts, ← burstsAt_eq]
    exact bursts i burst
  · rw [(run_endsAs forward proper cancelled symbol fits pip).1, ran]
    rfl

/-- In the jump the trigger fires twice. The second time nothing is known of what follows; the first
time is the one case, and a success. -/
theorem run_countsCases_jump :
    validate "EURUSD" jump = .ok () ∧ (∀ o ∈ jumpSettings.outcomes, 0 ≤ o.minutes) ∧
    jumpSettings.state.Proper ∧ jumpSettings.Fits jump ∧
    {p : Nat × Nat | ∃ t burst, jumpSettings.triggers[p.2]? = some t ∧
      Fires jump 0.0001 60000 p.1 t burst}.ncard = 2 ∧
    {c : Case | c.CountsFor jumpSettings jump 0.0001
      ⟨"M8_W1", "K15_T1", .up, ⟨[⟨"vol", "normal"⟩]⟩⟩}.ncard = 1 := by
  have forward : ∀ o ∈ jumpSettings.outcomes, 0 ≤ o.minutes := by decide +kernel
  have fits : jumpSettings.Fits jump := by decide +kernel
  refine ⟨jump_valid, forward, jumpSettings_proper, fits, ?_⟩
  obtain ⟨-, scan, found, -, -, fired, counts⟩ :=
    run_countsCases jump_valid forward jumpSettings_proper fits (fun _ => false) (fun _ => rfl)
      .checking 0.0001
  have computed : (run .checking jumpSettings (fun _ => false) "EURUSD" jump 0.0001).toOption.map
      (fun scan =>
        (scan.fired, (scan.tally.counts ⟨"M8_W1", "K15_T1", .up, ⟨[⟨"vol", "normal"⟩]⟩⟩).total))
        = some (2, 1) := by decide +kernel
  rw [found] at computed
  obtain ⟨two, one⟩ := Prod.mk.inj (Option.some_inj.1 computed)
  exact ⟨fired.symm.trans two, (counts _).1.symm.trans one⟩

/-! ## The three ends of a scan -/

section Ends

variable (b : Build) {s : ScanSettings} (cancelled : Nat → Bool) (symbol : String) {bars : Array Bar}
  (pip : Float)

/-- Bars that cannot be scanned are refused before anything is computed. -/
theorem run_of_validate_error {cause : Failure} (refused : validate symbol bars = .error cause) :
    run b s cancelled symbol bars pip = .error (.failure cause) := by
  rw [run, (validate_endsAs symbol bars).1, refused]
  rfl

/-- **A scan is all or nothing.** If horizons do not look back and the state is proper: where there is a first
bar with a price that is no finite number greater than zero, or a time that is not after that of the bar before
it, the scan is aborted there, and that stays so, with the reason given, whatever follows the bar and whoever
calls the scan off. Where words hold what the scan computes it is aborted nowhere else. If there is no such bar
then, and a look at one of the bars at which the scan looks sees it called off, it is cancelled. If none does,
it has an answer, the same as if nobody could call it off, and every bar is in it: it counts the bursts and the
samples of them all. -/
theorem run_threeEnds (forward : ∀ o ∈ s.outcomes, 0 ≤ o.minutes) (proper : s.state.Proper) :
    (∀ k, (Defective bars k ∧ ∀ j < k, ¬ Defective bars j) → ∃ reason,
      run b s cancelled symbol bars pip = .error (.failure (.scanAborted symbol k reason)) ∧
      ∀ (other : Nat → Bool) (more : Array Bar),
        run b s other symbol (bars.extract 0 (k + 1) ++ more) pip
          = .error (.failure (.scanAborted symbol k reason))) ∧
    (s.Fits bars →
      (∀ k, (∃ reason, run b s cancelled symbol bars pip
          = .error (.failure (.scanAborted symbol k reason))) ↔
        Defective bars k ∧ ∀ j < k, ¬ Defective bars j) ∧
      ((∀ k, ¬ Defective bars k) → (∃ i < bars.size, i % checkEvery = 0 ∧ cancelled i = true) →
        run b s cancelled symbol bars pip = .error (.failure (.cancelled symbol))) ∧
      ((∀ k, ¬ Defective bars k) → (∀ i < bars.size, i % checkEvery = 0 → cancelled i = false) →
        ∃ scan, run b s cancelled symbol bars pip = .ok scan ∧
          run b s (fun _ => false) symbol bars pip = .ok scan ∧ scan.bars = bars.size ∧
          ∃ fired samples,
            (∀ i < bars.size,
              casesAt s (bars.map Bar.closing) pip i b bars = .ok (fired i, samples i)) ∧
            scan.fired = ((List.range bars.size).map fired).sum ∧
            scan.tally = Tally.addAll ∅ ((List.range bars.size).flatMap samples))) := by
  obtain ⟨aborts, -, cancels, answers⟩ := run_allOrNothing forward proper cancelled symbol bars pip
  constructor
  · intro k first
    obtain ⟨reason, aborted⟩ := (aborts k).2 first
    rw [run_scanAborted_iff forward proper] at aborted
    exact ⟨reason, run_of_validate_error b cancelled symbol pip aborted, fun other more =>
      run_of_validate_error b other symbol pip (validate_of_scanAborted aborted more)⟩
  · intro fits
    have same (look : Nat → Bool) := (run_endsAs (b := b) forward proper look symbol fits pip).1
    refine ⟨fun k => ?_, fun fine seen => ?_, fun fine unseen => ?_⟩
    · rw [← aborts k]
      refine exists_congr fun reason => ?_
      rw [same]
      cases Scan.run s cancelled symbol bars pip <;> simp [Except.mapError]
    · rw [same, cancels fine seen]
      rfl
    · have valid : validate symbol bars = .ok () := validate_eq_ok_iff_forall.2 fine
      have ascending := ascending_of_valid valid
      obtain ⟨scan, ran, alone, whole, fired, samples, each, fires, tally⟩ := answers fine unseen
      refine ⟨scan, ?_, ?_, whole, fired, samples, fun i hi => ?_, fires, tally⟩
      · rw [same, ran]
        rfl
      · rw [same, alone]
        rfl
      · have own := each i hi
        rw [Scan.casesAt_eq ascending forward proper pip hi] at own
        rw [casesAt_eq ascending forward proper fits pip hi, Except.ok.inj own]

end Ends

/-- The jump, and then a minute with a price of zero and one that comes too early. -/
def brokenJump : Array Bar :=
  (jump.toList ++ [(⟨180000, 1.1, 1.1, 0.0, 1.1⟩ : Bar), ⟨60000, 1.1, 1.1, 1.1, 1.1⟩]).toArray

/-- The broken jump is refused at its fourth bar although it has been called off from the start. The jump
itself is cancelled then, and scanned if it is called off behind its first bar, where nobody looks. -/
theorem run_threeEnds_jump :
    (∀ o ∈ jumpSettings.outcomes, 0 ≤ o.minutes) ∧ jumpSettings.state.Proper ∧
    jumpSettings.Fits jump ∧
    (∃ reason, run .wrapping jumpSettings (fun _ => true) "EURUSD" brokenJump 0.0001
      = .error (.failure (.scanAborted "EURUSD" 3 reason))) ∧
    run .wrapping jumpSettings (fun _ => true) "EURUSD" jump 0.0001
      = .error (.failure (.cancelled "EURUSD")) ∧
    ∃ scan, run .wrapping jumpSettings (fun i => i != 0) "EURUSD" jump 0.0001 = .ok scan ∧
      scan.bars = 3 := by
  have forward : ∀ o ∈ jumpSettings.outcomes, 0 ≤ o.minutes := by decide +kernel
  have fits : jumpSettings.Fits jump := by decide +kernel
  have fine : ∀ k, ¬ Defective jump k := not_defective_of_valid jump_valid
  refine ⟨forward, jumpSettings_proper, fits, ?_, ?_, ?_⟩
  · obtain ⟨aborts, -⟩ := run_threeEnds .wrapping (fun _ => true) "EURUSD" 0.0001 forward
      jumpSettings_proper
    have first : Defective brokenJump 3 ∧ ∀ j < 3, ¬ Defective brokenJump j := by
      refine ⟨⟨⟨180000, 1.1, 1.1, 0.0, 1.1⟩, rfl, .inl fun sound => ?_⟩, fun j hj => ?_⟩
      · exact (sound 0.0 (by simp [Bar.prices])).2 (by decide +kernel)
      · have inside : j < jump.toList.length := hj
        exact mt (defective_append inside).1 (fine j)
    obtain ⟨reason, aborted, -⟩ := aborts 3 first
    exact ⟨reason, aborted⟩
  · obtain ⟨-, counts⟩ := run_threeEnds .wrapping (fun _ => true) "EURUSD" 0.0001 forward
      jumpSettings_proper
    exact (counts fits).2.1 fine ⟨0, by decide, rfl, rfl⟩
  · obtain ⟨-, counts⟩ := run_threeEnds .wrapping (fun i => i != 0) "EURUSD" 0.0001 forward
      jumpSettings_proper
    obtain ⟨scan, found, -, bars, -⟩ := (counts fits).2.2 fine fun i hi due => by
      have three : i < 3 := hi
      rw [checkEvery, Nat.mod_eq_of_lt (by omega)] at due
      rw [due]
      rfl
    exact ⟨scan, found, bars⟩

end FxPulse.Checked
