import FxPulse.Proofs.Failure
import FxPulse.Proofs.State.Text
import FxPulse.Scan.Basic

/-!
# `Proofs/Scan/Rows.lean` — the rows of a scan

Whatever the settings, and whether the bars make sense or not: where a scan has an answer,

> each key comes up once, its state is well formed, and no more successes are counted than cases.

So the rows of a scan can be written down and told apart.
-/

set_option autoImplicit false

namespace FxPulse

namespace Tally

/-- What is counted has a state that can be written down, and no more successes than cases. -/
def Sound (t : Tally) : Prop :=
  ∀ (key : RowKey) (counts : Counts), t[key]? = some counts →
    key.state.WellFormed ∧ counts.successes ≤ counts.total

theorem sound_empty : Sound ∅ := by
  intro key counts found
  simp at found

theorem Sound.add {t : Tally} (sound : t.Sound) {s : Sample} (named : s.key.state.WellFormed) :
    (t.add s).Sound := by
  intro key counts found
  rw [Tally.add, Std.ExtTreeMap.getElem?_insert] at found
  split at found
  · rename_i own
    cases found
    have before : (t.getD s.key ⟨0, 0⟩).successes ≤ (t.getD s.key ⟨0, 0⟩).total := by
      rw [Std.ExtTreeMap.getD_eq_getD_getElem?]
      cases there : t[s.key]? with
      | none => exact Nat.le_refl 0
      | some earlier => exact (sound _ _ there).2
    refine ⟨Std.LawfulEqOrd.eq_of_compare own ▸ named, ?_⟩
    unfold Counts.add
    dsimp only
    split <;> omega
  · exact sound key counts found

theorem Sound.addAll {t : Tally} (sound : t.Sound) {samples : List Sample}
    (named : ∀ s ∈ samples, s.key.state.WellFormed) : (t.addAll samples).Sound := by
  induction samples generalizing t with
  | nil => exact sound
  | cons s rest ih =>
    obtain ⟨first, later⟩ := List.forall_mem_cons.1 named
    exact ih (sound.add first) later

end Tally

namespace Scan

/-- The state of a sample is one of the levels that it was made for. -/
theorem state_mem_of_mem_samplesOf {b : Burst} {close pip : Float} {levels : List StateKey}
    {outcomes : List (Outcome × Option Extremes)} {x : Sample}
    (h : x ∈ samplesOf b close pip levels outcomes) : x.key.state ∈ levels := by
  unfold samplesOf at h
  obtain ⟨⟨o, extremes⟩, -, hx⟩ := List.mem_flatMap.1 h
  cases extremes with
  | none => cases hx
  | some e =>
    obtain ⟨level, mem, rfl⟩ := List.mem_map.1 hx
    exact mem

/-- **Every sample has a well-formed state.** -/
theorem wellFormed_of_mem_casesAt {s : ScanSettings} {bars : Array Bar} {closings : Array Point}
    {pip : Float} {i : Nat} {found : Nat × List Sample}
    (h : casesAt s bars closings pip i = .ok found) : ∀ x ∈ found.2, x.key.state.WellFormed := by
  unfold casesAt at h
  dsimp only at h
  intro x mem
  split at h
  · obtain ⟨state, computed, h⟩ := bind_eq_ok_iff.1 h
    obtain ⟨outcomes, -, h⟩ := bind_eq_ok_iff.1 h
    cases h
    obtain ⟨burst, -, mem⟩ := List.mem_flatMap.1 mem
    have whole := StateSpec.wellFormed_of_compute computed
    have level := state_mem_of_mem_samplesOf mem
    split at level
    · exact whole.of_isLevelOf (StateKey.mem_levels_iff.1 level)
    · exact List.mem_singleton.1 level ▸ whole
  · cases h
    cases mem

theorem step_sound {s : ScanSettings} {cancelled : Nat → Bool} {bars : Array Bar}
    {closings : Array Point} {pip : Float} {i : Nat} {scan next : InstrumentScan}
    (sound : scan.tally.Sound) (h : step s cancelled bars closings pip scan i = .ok next) :
    next.tally.Sound := by
  unfold step at h
  split at h
  · cases h
  · obtain ⟨found, judged, h⟩ := bind_eq_ok_iff.1 h
    cases h
    cases answered : casesAt s bars closings pip i with
    | error fault =>
      rw [answered] at judged
      cases judged
    | ok answer =>
      rw [answered] at judged
      cases judged
      exact sound.addAll (wellFormed_of_mem_casesAt answered)

theorem run_sound {s : ScanSettings} {cancelled : Nat → Bool} {symbol : String} {bars : Array Bar}
    {pip : Float} {scan : InstrumentScan} (h : run s cancelled symbol bars pip = .ok scan) :
    scan.tally.Sound := by
  obtain ⟨-, -, h⟩ := bind_eq_ok_iff.1 h
  exact foldlM_keeps (fun scan : InstrumentScan => scan.tally.Sound) step_sound Tally.sound_empty h

end Scan

namespace InstrumentScan

theorem nodup_keys_rows (s : InstrumentScan) (alpha : Float) :
    ((s.rows alpha).map (·.key)).Nodup := by
  rw [rows, List.map_map]
  refine List.pairwise_map.2 (Std.ExtTreeMap.distinct_keys_toList.imp fun {a b} apart same => ?_)
  exact apart (Std.LawfulEqOrd.compare_eq_iff_eq.2 same)

theorem sound_of_mem_rows {s : InstrumentScan} (sound : s.tally.Sound) {alpha : Float} {row : Row}
    (h : row ∈ s.rows alpha) :
    row.key.state.WellFormed ∧ row.counts.successes ≤ row.counts.total := by
  obtain ⟨⟨key, counts⟩, mem, rfl⟩ := List.mem_map.1 h
  exact sound key counts (Std.ExtTreeMap.mem_toList_iff_getElem?_eq_some.1 mem)

end InstrumentScan

end FxPulse
