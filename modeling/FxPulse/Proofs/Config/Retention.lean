import FxPulse.Proofs.Config.Load
import FxPulse.Proofs.History.Retained

/-!
# `Proofs/Config/Retention.lean` — whether enough history is kept

Live prices have three kinds of readers: percent changes look back over the windows, triggers over their
windows and the gap, the state over its minutes. `KeepsEnough` says that a configuration keeps history for
all of them. It is not so for every configuration that is accepted: slack may be negative, and nothing
asks for the gap.

> The retention is the longest look-back without the gap, and the slack (`retention_eq`). It is enough
> exactly when the slack is not negative and makes up for the gap of every trigger that has no longer
> look-back beside it.

A retention below zero keeps nothing, not even the point that has just come.
-/

set_option autoImplicit false

namespace FxPulse

open FxPulse.Number
open FxPulse.Point (Ordered)

/-- An accepted point is kept exactly if the retention is not negative. -/
theorem Series.latest?_push_iff {s grown : Series} {p : Point} (sorted : Ordered s.points.toList)
    (room : 0 < s.capacity) (accepted : s.push p = .ok grown) :
    grown.latest? = some p ↔ 0 ≤ s.retention := by
  have ordered : Ordered (s.points.push p).toList := by
    rw [Array.toList_push]
    exact sorted.concat (forall_le_of_push accepted sorted)
  obtain ⟨-, rfl⟩ := push_eq_ok_iff.1 accepted
  have held := prune_eq_rtake (s := { s with points := s.points.push p }) ordered p.ts
  rw [latest?, ← Array.getLast?_toList, held, getLast?_rtake room]
  show ((s.points.push p).toList.filter fun q => p.ts - s.retention ≤ q.ts).getLast? = some p ↔ _
  constructor
  · intro kept
    have fresh := (List.mem_filter.1 (List.mem_of_getLast? kept)).2
    have := of_decide_eq_true fresh
    omega
  · intro forward
    rw [Array.toList_push, List.filter_append, List.filter_singleton,
      decide_eq_true (by omega : p.ts - s.retention ≤ p.ts), cond_true, List.getLast?_concat]

namespace Config

/-- How far back the readers of live prices look, the gap left aside. -/
def lookbacks (c : Config) : List Int :=
  c.windows.map (·.length) ++ c.triggers.map Trigger.window ++ [c.state.lookback * minute]

/-- History reaches back as far as any reader of live prices looks. A trigger takes references as far
back as its window and the gap. -/
structure KeepsEnough (c : Config) : Prop where
  windows : ∀ w ∈ c.windows, w.length ≤ c.retention
  triggers : ∀ t ∈ c.triggers, t.window + c.burstGap ≤ c.retention
  state : c.state.lookback * minute ≤ c.retention

theorem wrapSigned_of_lt {n : Nat} (fits : n < signedLimit) : wrapSigned n = n := by
  simp only [signedLimit] at fits
  apply Int.bmod_eq_of_le_mul_two
  · simp only [greatestWord]
    omega
  · simp only [greatestWord]
    omega

theorem state_lookback_nonneg (c : Config) : 0 ≤ (c.state.lookback : Int) * minute := by
  unfold minute
  omega

/-- **The retention is the longest look-back, and the slack.** -/
theorem retention_eq {c : Config} (fits : c.state.lookback < signedLimit) :
    ∃ longest, c.lookbacks.max? = some longest ∧ c.retention = longest + c.retentionSlack := by
  obtain ⟨window_mem, window_le⟩ := foldl_max_greatest (c.windows.map (·.length)) 0
  obtain ⟨trigger_mem, trigger_le⟩ := foldl_max_greatest (c.triggers.map Trigger.window) 0
  have nonneg := c.state_lookback_nonneg
  refine ⟨_, ?_, rfl⟩
  rw [wrapSigned_of_lt fits, List.max?_eq_some_iff, lookbacks]
  simp only [List.mem_append, List.mem_singleton]
  revert window_mem window_le trigger_mem trigger_le nonneg
  generalize (c.windows.map (·.length)).foldl max 0 = window
  generalize (c.triggers.map Trigger.window).foldl max 0 = trigger
  generalize (c.state.lookback : Int) * minute = state
  intro window_mem window_le trigger_mem trigger_le nonneg
  constructor
  · -- Where no window and no trigger is longer than the state, the state is the longest.
    by_cases long : state < max window trigger
    · left
      rw [Int.max_eq_left (Int.le_of_lt long)]
      rcases Int.le_total trigger window with short | short
      · rw [Int.max_eq_left short] at long ⊢
        left
        exact (List.mem_cons.1 window_mem).resolve_left (by omega)
      · rw [Int.max_eq_right short] at long ⊢
        right
        exact (List.mem_cons.1 trigger_mem).resolve_left (by omega)
    · right
      exact Int.max_eq_right (Int.not_lt.1 long)
  · rintro b ((hb | hb) | rfl)
    · have := window_le b (List.mem_cons_of_mem _ hb)
      omega
    · have := trigger_le b (List.mem_cons_of_mem _ hb)
      omega
    · omega

theorem forall_mem_lookbacks {c : Config} {p : Int → Prop} :
    (∀ l ∈ c.lookbacks, p l) ↔ (∀ w ∈ c.windows, p w.length) ∧ (∀ t ∈ c.triggers, p t.window) ∧
      p (c.state.lookback * minute) := by
  simp only [lookbacks, List.forall_mem_append, List.forall_mem_map, List.forall_mem_singleton,
    and_assoc]

/-- **When enough history is kept.** Of an accepted configuration: the retention is the longest look-back
and the slack; it is enough exactly when the slack is not negative and each trigger's window and gap are
no longer than some look-back and the slack; and an accepted point is kept exactly when the retention is
not negative. -/
theorem keepsEnough_iff {lookup : Lookup} {c : Config} (loaded : load lookup = .ok c)
    (fits : c.state.lookback < signedLimit) :
    (∃ longest, c.lookbacks.max? = some longest ∧ c.retention = longest + c.retentionSlack) ∧
    (c.KeepsEnough ↔ 0 ≤ c.retentionSlack ∧
      ∀ t ∈ c.triggers, ∃ l ∈ c.lookbacks, t.window + c.burstGap ≤ l + c.retentionSlack) ∧
    (c.KeepsEnough → 0 ≤ c.retention) ∧
    ∀ (s grown : Series) (p : Point), s.retention = c.retention → 0 < s.capacity →
      Ordered s.points.toList → s.push p = .ok grown →
        (grown.latest? = some p ↔ 0 ≤ c.retention) := by
  obtain ⟨longest, greatest, sum⟩ := retention_eq fits
  obtain ⟨attained, longer⟩ := List.max?_eq_some_iff.1 greatest
  have gap := load_burstGap_nonneg loaded
  refine ⟨⟨longest, greatest, sum⟩, ⟨?_, ?_⟩, ?_, ?_⟩
  · intro enough
    constructor
    · -- The reader that looks back farthest has nothing but the slack to spare.
      have within : ∀ l ∈ c.lookbacks, l ≤ c.retention := by
        apply (forall_mem_lookbacks (p := (· ≤ c.retention))).2
        refine ⟨enough.windows, ?_, enough.state⟩
        intro t ht
        have far := enough.triggers t ht
        omega
      have far := within longest attained
      omega
    · intro t ht
      have far := enough.triggers t ht
      exact ⟨longest, attained, by omega⟩
  · rintro ⟨slack, triggers⟩
    obtain ⟨windows, -, state⟩ := forall_mem_lookbacks.1 longer
    constructor
    · intro w hw
      have far := windows w hw
      omega
    · intro t ht
      obtain ⟨l, hl, far⟩ := triggers t ht
      have most := longer l hl
      omega
    · omega
  · intro enough
    exact Int.le_trans c.state_lookback_nonneg enough.state
  · intro s grown p same room sorted pushed
    rw [← same]
    exact Series.latest?_push_iff sorted room pushed

/-- Settings that take away more than a day of what the windows ask for. -/
def forgetfulSetup : Lookup
  | "RETENTION_SLACK_MINUTES" => some "-2000"
  | _ => none

/-- Settings with a trigger over ten minutes, a gap of five, and no slack. -/
def gappySetup : Lookup
  | "WINDOWS" => some "5m"
  | "OSC_WINDOW" => some "5m"
  | "TRIGGER_GRID" => some "10:10"
  | "STATE_RSI_PERIOD" => some "0"
  | "STATE_VOL_WINDOWS" => some ""
  | "BURST_GAP_MINUTES" => some "5"
  | "RETENTION_SLACK_MINUTES" => some "0"
  | _ => none

/-- Both are accepted, and neither keeps enough. The first keeps nothing at all; the second keeps ten
minutes, and its trigger takes references from fifteen minutes back. -/
theorem keepsEnough_iff_short :
    (∃ c, load forgetfulSetup = .ok c ∧ c.state.lookback < signedLimit ∧ c.retentionSlack < 0 ∧
      c.retention < 0 ∧ ¬ c.KeepsEnough) ∧
    ∃ c, load gappySetup = .ok c ∧ c.state.lookback < signedLimit ∧ c.retentionSlack = 0 ∧
      c.retention = 600000 ∧ ¬ c.KeepsEnough := by
  constructor
  · have computed : (load forgetfulSetup).toOption.any (fun c =>
        decide (c.state.lookback < signedLimit ∧ c.retentionSlack < 0 ∧ c.retention < 0)) = true := by
      decide +kernel
    obtain ⟨c, loaded, rest⟩ := exists_ok_of_any computed
    obtain ⟨fits, slack, retention⟩ := of_decide_eq_true rest
    refine ⟨c, loaded, fits, slack, retention, ?_⟩
    intro enough
    have forward := ((keepsEnough_iff loaded fits).2.1.1 enough).1
    omega
  · have computed : (load gappySetup).toOption.any (fun c =>
        decide (c.state.lookback < signedLimit ∧ c.retentionSlack = 0 ∧ c.retention = 600000 ∧
          c.burstGap = 300000 ∧ ⟨(10.0 : Float), 10⟩ ∈ c.triggers ∧
            ∀ l ∈ c.lookbacks, l ≤ 600000)) = true := by
      decide +kernel
    obtain ⟨c, loaded, rest⟩ := exists_ok_of_any computed
    obtain ⟨fits, slack, retention, gap, own, short⟩ := of_decide_eq_true rest
    refine ⟨c, loaded, fits, slack, retention, ?_⟩
    intro enough
    obtain ⟨l, hl, far⟩ := ((keepsEnough_iff loaded fits).2.1.1 enough).2 _ own
    have near := short l hl
    have window : Trigger.window ⟨(10.0 : Float), 10⟩ = 600000 := by decide
    rw [window, gap, slack] at far
    omega

end Config

end FxPulse
