import FxPulse.Checked.Scans
import FxPulse.Proofs.Checked.Bursts
import FxPulse.Proofs.Checked.Points
import FxPulse.Proofs.Checked.States
import FxPulse.Proofs.Edge.Live
import FxPulse.Proofs.Scan.Counts

/-!
# `Proofs/Checked/Scans.lean` — scans over any bars

Looking back is safe at every bar there is, in whatever order the bars stand and whatever the windows
come to in words. Looking ahead is not: the last bar within a horizon is found by counting the bars that
are not after it and stepping back by one, which takes a bar that is counted. There is one because a
horizon does not look back and a scan goes over bars only when they go forward, so that at least the bar
itself is within. The end of a horizon that no word holds may lie before all bars.

> Where words hold what a scan computes it comes to the same as the scan that asks nothing
> (`triggersAt_completes`, `run_endsAs`). For what triggers find at a bar to come to an end nothing is
> needed of windows (`triggersAt_ends`); for a scan the horizons have to fit, unless the program was built
> to notice (`run_ends`).
-/

set_option autoImplicit false

namespace FxPulse

open FxPulse.Number

/-- A word holds all that is computed at a bar when it looks back on some bars. -/
structure ScanSettings.FitsAt (s : ScanSettings) (bars : Array Bar) (bar : Bar) : Prop where
  state : s.state.Fits
  triggers : ∀ t ∈ s.triggers, t.Fits s.gap (bars.map Bar.closing) bar.closing

/-- A word holds all that a scan of some bars computes. -/
structure ScanSettings.Fits (s : ScanSettings) (bars : Array Bar) : Prop where
  back : ∀ bar ∈ bars, s.FitsAt bars bar
  ahead : ∀ bar ∈ bars, ∀ o ∈ s.outcomes, o.Fits bar.closing

instance ScanSettings.decidableFitsAt (s : ScanSettings) (bars : Array Bar) (bar : Bar) :
    Decidable (s.FitsAt bars bar) :=
  decidable_of_iff
    (s.state.Fits ∧ ∀ t ∈ s.triggers, t.Fits s.gap (bars.map Bar.closing) bar.closing)
    ⟨fun ⟨state, triggers⟩ => ⟨state, triggers⟩, fun ⟨state, triggers⟩ => ⟨state, triggers⟩⟩

instance ScanSettings.decidableFits (s : ScanSettings) (bars : Array Bar) : Decidable (s.Fits bars) :=
  decidable_of_iff
    ((∀ bar ∈ bars, s.FitsAt bars bar) ∧ ∀ bar ∈ bars, ∀ o ∈ s.outcomes, o.Fits bar.closing)
    ⟨fun ⟨back, ahead⟩ => ⟨back, ahead⟩, fun ⟨back, ahead⟩ => ⟨back, ahead⟩⟩

/-- Fewer bars to look back on ask for no more. -/
theorem ScanSettings.FitsAt.mono {s : ScanSettings} {bars fewer : Array Bar} {bar : Bar}
    (fits : s.FitsAt bars bar) (among : ∀ other ∈ fewer, other ∈ bars) : s.FitsAt fewer bar where
  state := fits.state
  triggers t mem := by
    obtain ⟨window, span, target, elapsed⟩ := fits.triggers t mem
    refine ⟨window, span, target, fun p there => ?_⟩
    obtain ⟨other, inside, rfl⟩ := Array.mem_map.1 there
    exact elapsed _ (Array.mem_map_of_mem (among other inside))

namespace Scan

/-- The bursts at a bar, each with the place of its trigger. -/
def placed (s : ScanSettings) (bars : Array Bar) (pip : Float) (i : Nat) : List (Nat × Burst) :=
  s.triggers.zipIdx.filterMap fun (trigger, place) =>
    (burst? s bars pip i trigger).map fun burst => (place, burst)

theorem map_snd_placed (s : ScanSettings) (bars : Array Bar) (pip : Float) (i : Nat) :
    (placed s bars pip i).map Prod.snd = bursts s bars pip i := by
  have alone : ∀ entry : Trigger × Nat, ((burst? s bars pip i entry.1).map fun burst =>
      (entry.2, burst)).map Prod.snd = burst? s bars pip i entry.1 := by
    intro entry
    rw [Option.map_map]
    exact Option.map_id'
  rw [placed, List.map_filterMap]
  simp only [alone]
  rw [bursts, ← List.zipIdx_map_fst 0 s.triggers, List.filterMap_map, List.zipIdx_map_fst]
  rfl

/-- A burst at a bar takes no bar behind it. -/
theorem burst?_extract (s : ScanSettings) {bars : Array Bar} {i : Nat} (hi : i < bars.size)
    (pip : Float) (t : Trigger) :
    burst? s (bars.extract 0 (i + 1)) pip i t = burst? s bars pip i t := by
  have same : ∀ k < i + 1, (bars.extract 0 (i + 1))[k]? = bars[k]? := by
    intro k hk
    rw [Array.getElem?_extract, if_pos (by omega), Nat.zero_add]
  have closings : ∀ k < i,
      ((bars.extract 0 (i + 1)).map Bar.closing)[k]? = (bars.map Bar.closing)[k]? := by
    intro k hk
    rw [Array.getElem?_map, Array.getElem?_map, same k (by omega)]
  have reference : ∀ ts, reference? ((bars.extract 0 (i + 1)).map Bar.closing) i ts
      = reference? (bars.map Bar.closing) i ts := by
    intro ts
    have bound := Point.countBefore_le (bars.map Bar.closing) i (· ≤ ts)
    rw [reference?, reference?, Point.countBefore_congr closings]
    revert bound
    cases Point.countBefore (bars.map Bar.closing) i (· ≤ ts) with
    | zero => exact fun _ => rfl
    | succ count => exact closings count
  rw [burst?, burst?, same i (Nat.lt_succ_self i)]
  simp only [reference]

theorem mem_of_reference? {closings : Array Point} {i : Nat} {ts : Int} {p : Point}
    (found : reference? closings i ts = some p) : p ∈ closings := by
  unfold reference? at found
  split at found
  · cases found
  · exact Array.mem_of_getElem? found

end Scan

namespace Checked

open FxPulse.Scan

variable {b : Build}

/-! ## Looking back -/

/-- **A reference is one of the points before a place**, in whatever order they stand. -/
theorem reference_eq {closings : Array Point} {i : Nat} (within : i ≤ closings.size) (ts : Int) :
    reference closings i ts = .ok (reference? closings i ts) := by
  have bound := Point.countBefore_le closings i (· ≤ ts)
  rw [reference, stretch_eq (Nat.zero_le i) within, ok_bind, Point.countFront_extract within,
    reference?]
  revert bound
  cases Point.countBefore closings i (· ≤ ts) with
  | zero => exact fun _ => rfl
  | succ count =>
    intro bound
    dsimp only
    rw [element_eq (by omega), Array.getElem?_eq_getElem (by omega)]
    rfl

section Burst

variable {s : ScanSettings} {closings : Array Point} {pip : Float} {i : Nat}

theorem burst_ends (hi : i < closings.size) (trigger : Trigger) :
    Ends b (burst b s closings pip i trigger) := by
  refine (Ends.element hi).bind fun current _ => (target_ends _ _).bind fun ts _ => ?_
  rw [reference_eq (Nat.le_of_lt hi), ok_bind]
  cases reference? closings i ts with
  | none => exact .ok _
  | some reference => exact between_ends _ _ _ _ _

theorem fired_ends (hi : i < closings.size) : Ends b (fired b s closings pip i) :=
  (Ends.mapM fun entry _ => (burst_ends hi entry.1).bind fun _ _ => .ok _).bind fun _ _ => .ok _

theorem trigger_of_between {current reference : Point} {gap : Int} {t : Trigger} {found : Burst}
    (h : between b current reference pip gap t = .ok (some found)) : found.trigger = t := by
  obtain ⟨elapsed, -, h⟩ := bind_eq_ok_iff.1 h
  obtain ⟨shown, -, h⟩ := bind_eq_ok_iff.1 h
  cases shown with
  | false => cases h
  | true => exact trigger_eq_of_detect? (Except.ok.inj h)

/-- A burst is of the trigger that was asked, whatever its window comes to. -/
theorem trigger_of_burst {t : Trigger} {found : Burst}
    (h : burst b s closings pip i t = .ok (some found)) : found.trigger = t := by
  obtain ⟨current, -, h⟩ := bind_eq_ok_iff.1 h
  obtain ⟨ts, -, h⟩ := bind_eq_ok_iff.1 h
  obtain ⟨reference, -, h⟩ := bind_eq_ok_iff.1 h
  cases reference with
  | none => cases h
  | some reference => exact trigger_of_between h

/-- A burst stands with the place of its own trigger. -/
theorem trigger_of_mem_fired {bursts : List (Nat × Burst)}
    (h : fired b s closings pip i = .ok bursts) :
    ∀ entry ∈ bursts, s.triggers[entry.1]? = some entry.2.trigger := by
  obtain ⟨answers, asked, h⟩ := bind_eq_ok_iff.1 h
  have own : ∀ answer ∈ answers, ∀ entry, answer = some entry →
      s.triggers[entry.1]? = some entry.2.trigger := by
    refine forall_mem_of_mapM (fun (trigger, place) mem answer found entry given => ?_) asked
    obtain ⟨burst, computed, rest⟩ := bind_eq_ok_iff.1 found
    subst given
    obtain ⟨burst, rfl, rfl⟩ := Option.map_eq_some_iff.1 (Except.ok.inj rest)
    rw [trigger_of_burst computed]
    exact List.mem_zipIdx_iff_getElem?.1 mem
  cases h
  intro entry mem
  obtain ⟨answer, there, rfl⟩ := List.mem_filterMap.1 mem
  exact own _ there entry rfl

end Burst

section Back

variable {s : ScanSettings} {bars : Array Bar} {i : Nat} (hi : i < bars.size) (pip : Float)
include hi

theorem burst_eq {trigger : Trigger}
    (fits : trigger.Fits s.gap (bars.map Bar.closing) bars[i].closing) :
    burst b s (bars.map Bar.closing) pip i trigger = .ok (burst? s bars pip i trigger) := by
  have within : i ≤ (bars.map Bar.closing).size := by
    rw [Array.size_map]
    exact Nat.le_of_lt hi
  rw [burst, element_of_getElem? (Bar.getElem?_closings hi), ok_bind, target_eq fits, ok_bind,
    reference_eq within, ok_bind, burst?, Array.getElem?_eq_getElem hi, Option.bind_eq_bind,
    Option.bind_some, ← Bar.closing_ts]
  cases found : reference? (bars.map Bar.closing) i (bars[i].closing.ts - trigger.window) with
  | none => rfl
  | some reference => exact between_eq fits (mem_of_reference? found) pip

section Fits

variable (fits : s.FitsAt bars bars[i])
include fits

theorem fired_eq : fired b s (bars.map Bar.closing) pip i = .ok (placed s bars pip i) := by
  have answers := mapM_eq_ok (ε := Halt) (l := s.triggers.zipIdx)
    (f := fun (trigger, place) => do
      return (← burst b s (bars.map Bar.closing) pip i trigger).map fun burst => (place, burst))
    (g := fun (trigger, place) =>
      (burst? s bars pip i trigger).map fun burst => (place, burst))
    fun entry mem => by
      have asked : entry.1 ∈ s.triggers :=
        List.mem_of_getElem? (List.mem_zipIdx_iff_getElem?.1 mem)
      dsimp only
      rw [burst_eq hi pip (fits.triggers _ asked)]
      rfl
  rw [fired, answers, ok_bind, pure_eq_ok, List.filterMap_map]
  rfl

end Fits

/-- What is seen of the bars at one of them are those up to it. -/
theorem triggersAt_completes (fits : s.FitsAt (bars.extract 0 (i + 1)) bars[i])
    (proper : s.state.Proper) :
    Completes (triggersAt b s bars i pip) (Scan.triggersAt s bars i pip) := by
  obtain ⟨state, hstate, found⟩ := Scan.triggersAt_eq proper hi pip
  have last : i < (bars.extract 0 (i + 1)).size := by
    rw [Array.size_extract]
    omega
  have same : (bars.extract 0 (i + 1))[i] = bars[i] := by simp
  have seen : placed s (bars.extract 0 (i + 1)) pip i = placed s bars pip i := by
    simp only [placed, burst?_extract s hi]
  have computed : compute b s.state ((bars.extract 0 (i + 1)).map (·.close)) = .ok state :=
    (compute_completes proper fits.state b (closesUpTo bars i)).eq_ok hstate
  -- Both sides look at the bars up to this one: the scan cuts them out first, the other only reads them.
  refine .of_eq ?_ found
  rw [triggersAt, stretch_eq (Nat.zero_le _) hi, ok_bind, fired_eq last pip (same ▸ fits), ok_bind,
    seen, ← map_snd_placed, List.map_map]
  cases placed s bars pip i with
  | nil => rfl
  | cons first rest =>
    rw [computed]
    rfl

/-- **Whatever the bars and the windows are, the triggers at a bar come to an end.** -/
theorem triggersAt_ends (proper : s.state.Proper) (counted : s.state.Fits) :
    Ends b (triggersAt b s bars i pip) := by
  have last : i < ((bars.extract 0 (i + 1)).map Bar.closing).size := by
    rw [Array.size_map, Array.size_extract]
    omega
  rw [triggersAt, stretch_eq (Nat.zero_le _) hi, ok_bind]
  refine (fired_ends last).bind fun found _ => ?_
  split
  · exact .ok _
  · obtain ⟨state, computed, -⟩ := compute_completes proper counted b
      ((bars.extract 0 (i + 1)).map (·.close))
    rw [computed]
    exact .ok _

end Back

/-! ## Looking ahead -/

/-- Whatever is found ahead without asking is found with everything checked. -/
theorem ahead_of_ahead? {bars : Array Bar} {i : Nat} (hi : i < bars.size) {o : Outcome}
    (fits : o.Fits bars[i].closing) {answer : Option Extremes}
    (found : ahead? bars (bars.map Bar.closing) i o = .ok answer) :
    ahead b bars (bars.map Bar.closing) i o = .ok answer := by
  rw [ahead?, Bar.getElem?_closings hi] at found
  rw [ahead, element_of_getElem? (Bar.getElem?_closings hi), ok_bind]
  cases last : (bars.map Bar.closing).back? with
  | none =>
    rw [last] at found
    cases found
    rfl
  | some latest =>
    rw [last] at found
    dsimp only at found ⊢
    rw [horizon, signed_eq fits.horizon, ok_bind, signed_eq fits.limit, ok_bind]
    by_cases beyond : bars[i].closing.ts + o.horizon > latest.ts
    · rw [if_pos beyond] at found ⊢
      cases found
      rfl
    · rw [if_neg beyond] at found ⊢
      have bound := Point.countBefore_le (bars.map Bar.closing) (bars.map Bar.closing).size
        (· ≤ bars[i].closing.ts + o.horizon)
      rw [← Point.countFront, Array.size_map] at bound
      revert found bound
      cases Point.countFront (bars.map Bar.closing) (· ≤ bars[i].closing.ts + o.horizon) with
      | zero =>
        -- No bar within the horizon is a fault there, so nothing has been found.
        intro found
        cases found
      | succ final =>
        intro found bound
        dsimp only at found
        rw [difference_eq (by omega), ok_bind, Nat.add_sub_cancel]
        by_cases near : final ≤ i
        · rw [if_pos near] at found ⊢
          cases found
          rfl
        · rw [if_neg near] at found ⊢
          rw [stretch_eq (by omega) bound]
          cases found
          rfl

section Ahead

variable {bars : Array Bar} (ascending : Bar.Ascending bars.toList) {i : Nat} (hi : i < bars.size)
  {o : Outcome} (forward : 0 ≤ o.minutes)
include ascending forward

/-- **Looking ahead is safe** where bars go forward, the horizon does not look back and its end fits. -/
theorem ahead_eq (fits : o.Fits bars[i].closing) :
    ahead b bars (bars.map Bar.closing) i o = .ok (extremes? bars i o) :=
  ahead_of_ahead? hi fits (ahead?_eq ascending hi forward)

/-- In a program built to notice, the end of the horizon fits or is noticed. -/
theorem ahead_ends (fits : b = .wrapping → o.Fits bars[i].closing) :
    Ends b (ahead b bars (bars.map Bar.closing) i o) := by
  by_cases known : o.Fits bars[i].closing
  · exact .of_eq (ahead_eq ascending hi forward known)
  · have wraps : b ≠ .wrapping := fun same => known (fits same)
    rw [ahead, element_of_getElem? (Bar.getElem?_closings hi), ok_bind]
    cases (bars.map Bar.closing).back? with
    | none => exact .ok _
    | some last =>
      refine Ends.signed_bind (fun length => ?_) fun same => absurd same wraps
      exact Ends.signed_bind (fun limit => absurd ⟨length, limit⟩ known) fun same => absurd same wraps

end Ahead

/-! ## Cases -/

section Cases

variable {s : ScanSettings} {closings : Array Point} {i : Nat}

theorem counted_eq (state : StateKey) : counted s state = .ok (levelsOf s state) := by
  rw [counted, levelsOf, levels_eq]
  split <;> rfl

theorem samplesOf_eq {current : Point} (here : closings[i]? = some current) (pip : Float)
    (levels : List StateKey) (extremes : Outcome → Option Extremes) {fired : Nat × Burst}
    (own : s.triggers[fired.1]? = some fired.2.trigger) :
    samplesOf s closings pip i levels (s.outcomes.map extremes).toArray fired
      = .ok (Scan.samplesOf fired.2 current.value pip levels
          (s.outcomes.map fun o => (o, extremes o))) := by
  have trigger : (triggerLabels s)[fired.1]? = some fired.2.trigger.label := by
    simp [triggerLabels, own]
  have each : ∀ entry ∈ s.outcomes.zipIdx,
      casesOf s closings pip i levels (s.outcomes.map extremes).toArray fired entry
        = .ok (Scan.samplesOf fired.2 current.value pip levels [(entry.1, extremes entry.1)]) := by
    intro entry mem
    have place := List.mem_zipIdx_iff_getElem?.1 mem
    have label : (outcomeLabels s)[entry.2]? = some entry.1.label := by simp [outcomeLabels, place]
    have found : (s.outcomes.map extremes).toArray[entry.2]? = some (extremes entry.1) := by
      simp [place]
    rw [casesOf, element_of_getElem? found, ok_bind, Scan.samplesOf]
    cases extremes entry.1 with
    | none => rfl
    | some e =>
      dsimp only
      rw [element_of_getElem? here, ok_bind, element_of_getElem? trigger,
        element_of_getElem? label]
      exact (mapM_eq_ok fun level _ => rfl).trans (by simp)
  rw [samplesOf, mapM_eq_ok each, ok_bind, pure_eq_ok, Scan.samplesOf, List.flatMap_map,
    ← List.zipIdx_map_fst 0 s.outcomes, List.flatMap_map, List.zipIdx_map_fst,
    ← List.flatMap_def]
  simp [Scan.samplesOf]

theorem samplesOf_ends (hi : i < closings.size) (pip : Float) (levels : List StateKey)
    {extremes : Array (Option Extremes)} (whole : extremes.size = s.outcomes.length)
    {fired : Nat × Burst} (own : s.triggers[fired.1]? = some fired.2.trigger) :
    Ends b (samplesOf s closings pip i levels extremes fired) := by
  have listed : fired.1 < (triggerLabels s).size := by
    have := (List.getElem?_eq_some_iff.1 own).1
    simpa [triggerLabels] using this
  refine (Ends.mapM fun entry mem => ?_).bind fun _ _ => .ok _
  have place : entry.2 < s.outcomes.length :=
    (List.getElem?_eq_some_iff.1 (List.mem_zipIdx_iff_getElem?.1 mem)).1
  refine (Ends.element (by omega)).bind fun found _ => ?_
  cases found with
  | none => exact .ok _
  | some e =>
    refine (Ends.element hi).bind fun _ _ => .mapM fun level _ => ?_
    refine (Ends.element listed).bind fun _ _ => (Ends.element ?_).bind fun _ _ => .ok _
    simpa [outcomeLabels] using place

end Cases

section CasesAt

variable {s : ScanSettings} {bars : Array Bar} (ascending : Bar.Ascending bars.toList)
  (forward : ∀ o ∈ s.outcomes, 0 ≤ o.minutes) (proper : s.state.Proper)
include ascending forward proper

/-- **The cases at a bar are found** where bars go forward, horizons do not look back, the state is
proper, and words hold what is computed. -/
theorem casesAt_eq (fits : s.Fits bars) (pip : Float) {i : Nat} (hi : i < bars.size) :
    casesAt s (bars.map Bar.closing) pip i b bars
      = .ok ((bursts s bars pip i).length, samplesAt s bars pip i) := by
  have back := fits.back bars[i] (Array.getElem_mem hi)
  have looked := fired_eq (b := b) hi pip back
  obtain ⟨state, computed, hstate⟩ := compute_completes proper back.state b (closesUpTo bars i)
  have closes : stretch ((bars.map Bar.closing).map (·.value)) 0 (i + 1)
      = .ok (closesUpTo bars i) := by
    rw [stretch_eq (Nat.zero_le _) (by simpa using hi), Array.map_map, ← Array.map_extract]
    rfl
  have extremes : s.outcomes.mapM (ahead b bars (bars.map Bar.closing) i)
      = .ok (s.outcomes.map (extremes? bars i)) :=
    mapM_eq_ok fun o mem =>
      ahead_eq ascending hi (forward o mem) (fits.ahead _ (Array.getElem_mem hi) o mem)
  have samples : (placed s bars pip i).mapM (samplesOf s (bars.map Bar.closing) pip i
        (levelsOf s state) (s.outcomes.map (extremes? bars i)).toArray)
      = .ok ((placed s bars pip i).map fun fired => Scan.samplesOf fired.2 bars[i].close pip
          (levelsOf s state) (s.outcomes.map fun o => (o, extremes? bars i o))) :=
    mapM_eq_ok fun fired mem =>
      samplesOf_eq (Bar.getElem?_closings hi) pip _ _ (trigger_of_mem_fired looked fired mem)
  rw [casesAt, looked, ok_bind, samplesAt, Array.getElem?_eq_getElem hi, hstate,
    ← map_snd_placed, List.length_map]
  dsimp only
  rw [List.flatMap_map]
  cases found : placed s bars pip i with
  | nil => rfl
  | cons first rest =>
    rw [found] at samples
    rw [if_neg (by simp), closes, ok_bind, computed, ok_bind, counted_eq, ok_bind, extremes, ok_bind,
      samples]
    rfl

/-- **The cases at a bar come to an end** where horizons fit or what does not fit is noticed. -/
theorem casesAt_ends (counts : s.state.Fits) {i : Nat} (hi : i < bars.size)
    (fits : b = .wrapping → ∀ o ∈ s.outcomes, o.Fits bars[i].closing) (pip : Float) :
    Ends b (casesAt s (bars.map Bar.closing) pip i b bars) := by
  have inside : i < (bars.map Bar.closing).size := by simpa using hi
  refine (fired_ends inside).bind fun found looked => ?_
  split
  · exact .ok _
  · rw [stretch_eq (Nat.zero_le _) (by simpa using hi), ok_bind]
    obtain ⟨state, computed, -⟩ := compute_completes proper counts b
      (((bars.map Bar.closing).map (·.value)).extract 0 (i + 1))
    rw [computed, ok_bind, counted_eq, ok_bind]
    have judged : Ends b (s.outcomes.mapM (ahead b bars (bars.map Bar.closing) i)) :=
      .mapM fun o mem => ahead_ends ascending hi (forward o mem) fun wraps => fits wraps o mem
    refine judged.bind fun extremes given => (Ends.mapM fun fired mem => ?_).bind fun _ _ => .ok _
    exact samplesOf_ends inside pip _ (length_of_mapM given) (trigger_of_mem_fired looked fired mem)

end CasesAt

/-! ## Scans -/

theorem barBefore_eq {bars : Array Bar} {front rest : List Bar} (whole : bars.toList = front ++ rest) :
    barBefore bars front.length = .ok front.getLast? := by
  unfold barBefore
  by_cases first : front.length = 0
  · rw [if_pos first, List.eq_nil_of_length_eq_zero first]
    rfl
  · have last : bars[front.length - 1]? = front.getLast? := by
      rw [← Array.getElem?_toList, whole, List.getElem?_append_left (by omega),
        List.getLast?_eq_getElem?]
    obtain ⟨bar, hbar⟩ : ∃ bar, front.getLast? = some bar := by
      rw [← Option.isSome_iff_exists, List.getLast?_isSome]
      exact fun none => first (by rw [none]; rfl)
    rw [if_neg first, difference_eq (Nat.pos_of_ne_zero first), ok_bind,
      element_of_getElem? (last.trans hbar), hbar]
    rfl

theorem validateFrom_endsAs (symbol : String) {bars : Array Bar} (front : List Bar) {rest : List Bar}
    (whole : bars.toList = front ++ rest) :
    EndsAs (validateFrom symbol bars front.length rest)
      (Scan.validateFrom symbol front.length front.getLast? rest) := by
  induction rest generalizing front with
  | nil => exact .ok ()
  | cons bar rest ih =>
    rw [validateFrom, barBefore_eq whole, ok_bind, Scan.validateFrom]
    cases defect? front.getLast? bar with
    | some defect => exact .error (by rintro fault ⟨⟩)
    | none =>
      have later := ih (front ++ [bar]) (by simp [whole])
      rw [List.length_append, List.length_singleton, List.getLast?_concat] at later
      exact later

theorem validate_endsAs (symbol : String) (bars : Array Bar) :
    EndsAs (validateFrom symbol bars 0 bars.toList) (validate symbol bars) :=
  validateFrom_endsAs symbol [] rfl

section Run

variable {s : ScanSettings} (forward : ∀ o ∈ s.outcomes, 0 ≤ o.minutes) (proper : s.state.Proper)
  (cancelled : Nat → Bool) (symbol : String) {bars : Array Bar}
include forward proper

/-- **A scan over any bars ends with an answer or a refusal**, and it is the one that the scan gives
that asks nothing. -/
theorem run_endsAs (fits : s.Fits bars) (pip : Float) :
    EndsAs (run b s cancelled symbol bars pip) (Scan.run s cancelled symbol bars pip) := by
  refine (validate_endsAs symbol bars).bind fun _ valid => ?_
  have ascending := ascending_of_valid valid
  refine EndsAs.foldlM (fun scan i mem => ?_) _
  have hi := List.mem_range.1 mem
  rw [step, remainder_eq (by decide), ok_bind, Scan.step]
  by_cases off : (decide (i % checkEvery = 0) && cancelled i) = true
  · rw [if_pos off, if_pos off]
    exact .error (by rintro fault ⟨⟩)
  · rw [if_neg off, if_neg off, casesAt_eq ascending forward proper fits pip hi,
      Scan.casesAt_eq ascending forward proper pip hi]
    exact .ok _

/-- **A scan over any bars comes to an end** where horizons fit or what does not fit is noticed. -/
theorem run_ends (counts : s.state.Fits)
    (fits : b = .wrapping → ∀ bar ∈ bars, ∀ o ∈ s.outcomes, o.Fits bar.closing) (pip : Float) :
    Ends b (run b s cancelled symbol bars pip) := by
  refine (validate_endsAs symbol bars).ends.bind fun _ checked => ?_
  have valid : validate symbol bars = .ok () := (validate_endsAs symbol bars).eq_ok checked
  have ascending := ascending_of_valid valid
  refine Ends.foldlM (fun scan i mem => ?_) _
  have hi := List.mem_range.1 mem
  rw [step, remainder_eq (by decide), ok_bind]
  split
  · exact .error (by rintro fault ⟨⟩)
  · refine (casesAt_ends ascending forward proper counts hi (fun wraps => ?_) pip).bind
      fun _ _ => .ok _
    exact fits wraps _ (Array.getElem_mem hi)

end Run

end Checked

end FxPulse
