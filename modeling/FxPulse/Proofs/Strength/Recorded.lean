import FxPulse.Proofs.Config.Retention
import FxPulse.Proofs.Engine.Reach

/-!
# `Proofs/Strength/Recorded.lean` — when strengths were recorded last

Strengths are recorded at times of the data, each time for all that have one. Told from a history is when:
the last point of each series recorded has the time of the recording (`Timely.record`), unless retention is
negative and leaves nothing.
-/

set_option autoImplicit false

namespace FxPulse

namespace StrengthHistory

/-- The time of the last sample of a key. -/
def lastTime? (h : StrengthHistory) (key : StrengthKey) : Option Int :=
  (h.series[key]?.bind (·.latest?)).map (·.ts)

/-- A history in which the last sample may have been taken at a time, and none after it. -/
structure Timely (h : StrengthHistory) (last : Option Int) : Prop where
  forward : 0 ≤ h.retention
  sorted : Series.AllOrdered h.series
  room : ∀ (key : StrengthKey) (series : Series), h.series[key]? = some series →
    series.retention = h.retention ∧ 0 < series.capacity
  upTo : ∀ key ts, h.lastTime? key = some ts → ∃ l ∈ last, ts ≤ l

theorem timely_new {retention : Int} (forward : 0 ≤ retention) : (new retention).Timely none where
  forward := forward
  sorted := Series.allOrdered_empty
  room key series h := by simp [new] at h
  upTo key ts h := by simp [new, lastTime?] at h

namespace Timely

variable {h : StrengthHistory} {ts : Int}

/-- What was recorded up to some time was recorded up to any later one. -/
theorem mono {last : Option Int} (timely : h.Timely last) (later : ∀ l ∈ last, l ≤ ts) :
    h.Timely (some ts) where
  forward := timely.forward
  sorted := timely.sorted
  room := timely.room
  upTo key t own := by
    obtain ⟨l, hl, order⟩ := timely.upTo key t own
    exact ⟨ts, rfl, Int.le_trans order (later l hl)⟩

/-- A sample is taken, and is then the last of its key. -/
theorem recordOne (timely : h.Timely (some ts)) (key : StrengthKey) (percent : Float) :
    (h.recordOne ts key percent).1.Timely (some ts) ∧
      ∀ k, (h.recordOne ts key percent).1.lastTime? k = if k = key then some ts else h.lastTime? k := by
  have sorted := timely.sorted.getD key h.retention seriesCapacity
  have before : ∀ kept, h.series.getD key (Series.new h.retention seriesCapacity) = kept →
      (kept.retention = h.retention ∧ 0 < kept.capacity) ∧
        ∀ last, kept.latest? = some last → last.ts ≤ ts := by
    rintro kept rfl
    rw [Std.ExtTreeMap.getD_eq_getD_getElem?]
    cases there : h.series[key]? with
    | none => exact ⟨⟨rfl, Nat.le_max_right seriesCapacity 1⟩, nofun⟩
    | some series =>
      refine ⟨timely.room key series there, fun last newest => ?_⟩
      have own : h.lastTime? key = some last.ts := by
        rw [lastTime?, there, Option.bind_some]
        exact congrArg (Option.map (·.ts)) newest
      obtain ⟨l, hl, order⟩ := timely.upTo key last.ts own
      cases hl
      exact order
  unfold StrengthHistory.recordOne
  generalize h.series.getD key (Series.new h.retention seriesCapacity) = kept at sorted before ⊢
  obtain ⟨⟨retention, room⟩, upTo⟩ := before kept rfl
  cases pushed : kept.push ⟨ts, percent⟩ with
  | error r =>
    obtain ⟨last, newest, back, -⟩ := Series.push_eq_error_iff.1 pushed
    exact absurd (upTo last newest) (Int.not_le.2 back)
  | ok grown =>
    have newest : grown.latest? = some ⟨ts, percent⟩ :=
      (Series.latest?_push_iff sorted room pushed).2 (retention ▸ timely.forward)
    have times : ∀ k, lastTime? { h with series := h.series.insert key grown } k
        = if k = key then some ts else h.lastTime? k := by
      intro k
      rw [lastTime?, lastTime?, getElem?_insert_ite]
      by_cases same : k = key
      · rw [if_pos same, if_pos same.symm, Option.bind_some, newest]
        rfl
      · rw [if_neg same, if_neg (Ne.symm same)]
    refine ⟨⟨timely.forward, timely.sorted.insert (Series.push_ordered pushed sorted), ?_, ?_⟩, times⟩
    · intro other series there
      dsimp only at there
      rw [Std.ExtTreeMap.getElem?_insert] at there
      split at there
      · cases there
        obtain ⟨-, rfl⟩ := Series.push_eq_ok_iff.1 pushed
        exact ⟨retention, room⟩
      · exact timely.room other series there
    · intro k t own
      rw [times] at own
      split at own
      · cases own
        exact ⟨ts, rfl, Int.le_refl ts⟩
      · exact timely.upTo k t own

/-- **A recording is the last of all its keys.** -/
theorem record (timely : h.Timely (some ts)) (strengths : Strengths) :
    (h.record ts strengths).1.Timely (some ts) ∧
      ∀ k, (h.record ts strengths).1.lastTime? k
        = if k ∈ (samples strengths).map Prod.fst then some ts else h.lastTime? k := by
  rw [record_fst]
  induction samples strengths generalizing h with
  | nil => exact ⟨timely, fun k => (if_neg List.not_mem_nil).symm⟩
  | cons sample rest ih =>
    obtain ⟨next, times⟩ := timely.recordOne sample.1 sample.2
    obtain ⟨whole, later⟩ := ih next
    refine ⟨whole, fun k => ?_⟩
    rw [List.foldl_cons, later, times, List.map_cons]
    by_cases again : k ∈ rest.map Prod.fst
    · rw [if_pos again, if_pos (List.mem_cons_of_mem _ again)]
    · simp only [List.mem_cons, again, or_false, if_false]

end Timely

/-- Where there is nothing to record, a history stays as it is. -/
theorem record_of_samples_eq_nil {strengths : Strengths} (nothing : samples strengths = [])
    (h : StrengthHistory) (ts : Int) : h.record ts strengths = (h, 0) := by
  rw [record, nothing]
  rfl

end StrengthHistory

namespace Engine

open StrengthHistory (samples)

/-! ## When strengths are sampled -/

/-- The time at which a refresh would sample the strengths, if it would. -/
def sampleTime? (e : Engine) : Option Int := e.dataTime?.filter e.isDue

/-- Sampling records the strengths at that time, and remembers it. -/
theorem sampleStrength_eq_sampleTime? (e : Engine) :
    e.sampleStrength.1 = { e with
      strengthHistory := e.sampleTime?.elim e.strengthHistory fun ts =>
        (e.strengthHistory.record ts e.strength).1
      sampledAt := e.sampleTime?.or e.sampledAt } := by
  unfold sampleStrength sampleTime?
  cases time : e.dataTime? with
  | none => rfl
  | some ts =>
    rw [Option.filter_some]
    by_cases due : e.isDue ts = true
    · rw [if_pos due]
      dsimp only
      rw [if_pos due]
      rfl
    · rw [if_neg due]
      dsimp only
      rw [if_neg due]
      rfl

theorem lt_of_sampleTime? {e : Engine} {ts : Int} (h : e.sampleTime? = some ts) :
    ∀ last ∈ e.sampledAt, last < ts := by
  intro last before
  have due := (Option.filter_eq_some_iff.1 h).2
  rw [isDue, before] at due
  exact of_decide_eq_true due

theorem timely_sampleStrength {e : Engine} (timely : e.strengthHistory.Timely e.sampledAt) :
    e.sampleStrength.1.strengthHistory.Timely e.sampleStrength.1.sampledAt ∧
      ∀ key ∈ (samples e.strength).map Prod.fst, e.sampleStrength.1.strengthHistory.lastTime? key
        = e.sampleTime?.or (e.strengthHistory.lastTime? key) := by
  rw [sampleStrength_eq_sampleTime?]
  dsimp only
  cases time : e.sampleTime? with
  | none => exact ⟨timely, fun key own => rfl⟩
  | some ts =>
    obtain ⟨recorded, times⟩ := (timely.mono fun last before =>
      Int.le_of_lt (lt_of_sampleTime? time last before)).record e.strength
    refine ⟨recorded, fun key own => ?_⟩
    rw [Option.elim_some, times, if_pos own]
    rfl

/-- The history of strengths that a refresh leaves is that of sampling. -/
theorem sampled_of_refresh {e after : Engine} {watch : Stopwatch} {summary : RefreshSummary}
    (h : e.refresh watch = .ok (after, summary)) :
    after.strengthHistory = e.sampleStrength.1.strengthHistory ∧
      after.sampledAt = e.sampleStrength.1.sampledAt := by
  obtain ⟨_, _, _, _, _, _, sampling, -, -, rfl, -⟩ := refresh_eq_ok h
  rw [sampling]
  exact ⟨rfl, rfl⟩

end Engine

end FxPulse
