import FxPulse.Proofs.Failure
import FxPulse.Proofs.Scan.Ahead
import FxPulse.Proofs.Scan.Back
import FxPulse.Proofs.Scan.Tally
import FxPulse.Proofs.State.Levels

/-!
# `Proofs/Scan/Cases.lean` — what a bar contributes

A case is a bar, a trigger that fires there and an outcome that can be judged there, and it counts for
every level of the state at the bar. `Case.CountsFor` says so in a sentence; `samplesAt` is the list of
what a scan enters for one bar, with the searches replaced by what they find; and the two agree:

> the samples at a bar that are for a key are as many as the pairs of a trigger and an outcome whose
> case counts for it (`countP_samplesAt`).

What makes this more than a rewording is that a key stands for at most one level of a state, so no case
is entered twice for one key.
-/

set_option autoImplicit false

namespace FxPulse.Scan

/-- A bar, a trigger and an outcome, by their places. -/
structure Case where
  bar : Nat
  trigger : Nat
  outcome : Nat
deriving DecidableEq, Repr

/-- The levels of a state that a scan counts for: all of them, or the state alone. -/
def Counted (relaxed : Bool) (level state : StateKey) : Prop :=
  if relaxed then level.IsLevelOf state else level = state

namespace Case

/-- The trigger fires at the bar, the outcome can be judged there, and the key is theirs: it has their
labels, the direction of the burst, and a level of the state at the bar. -/
def CountsFor (s : ScanSettings) (bars : Array Bar) (pip : Float) (key : RowKey) (c : Case) : Prop :=
  ∃ t o burst state, s.triggers[c.trigger]? = some t ∧ s.outcomes[c.outcome]? = some o ∧
    Fires bars pip s.gap c.bar t burst ∧ Judged bars c.bar o ∧
    s.state.compute (closesUpTo bars c.bar) = .ok state ∧ Counted s.relaxed key.state state ∧
    key.trigger = t.label ∧ key.outcome = o.label ∧ key.direction = burst.direction

/-- The outcome came true after the bar, in the direction of the key. -/
def Succeeds (s : ScanSettings) (bars : Array Bar) (pip : Float) (key : RowKey) (c : Case) : Prop :=
  ∃ o, s.outcomes[c.outcome]? = some o ∧ Reached bars pip c.bar o key.direction

/-- What is left to ask of a case whose trigger is known to fire. -/
theorem countsFor_iff {s : ScanSettings} {bars : Array Bar} {pip : Float} {key : RowKey} {c : Case}
    {t : Trigger} {o : Outcome} {b : Burst} {state : StateKey} (ht : s.triggers[c.trigger]? = some t)
    (ho : s.outcomes[c.outcome]? = some o) (fires : Fires bars pip s.gap c.bar t b)
    (hstate : s.state.compute (closesUpTo bars c.bar) = .ok state) :
    c.CountsFor s bars pip key ↔ Judged bars c.bar o ∧
      (key.trigger = t.label ∧ key.outcome = o.label ∧ key.direction = b.direction) ∧
      Counted s.relaxed key.state state := by
  constructor
  · rintro ⟨t', o', b', state', ht', ho', fires', judged, hstate', counted, named⟩
    obtain rfl : t = t' := Option.some_inj.1 (ht.symm.trans ht')
    obtain rfl : o = o' := Option.some_inj.1 (ho.symm.trans ho')
    obtain rfl : b = b' := fires.unique fires'
    obtain rfl : state = state' := Except.ok.inj (hstate.symm.trans hstate')
    exact ⟨judged, named, counted⟩
  · rintro ⟨judged, named, counted⟩
    exact ⟨t, o, b, state, ht, ho, fires, judged, hstate, counted, named⟩

theorem succeeds_iff {s : ScanSettings} {bars : Array Bar} {pip : Float} {key : RowKey} {c : Case}
    {o : Outcome} (ho : s.outcomes[c.outcome]? = some o) :
    c.Succeeds s bars pip key ↔ Reached bars pip c.bar o key.direction := by
  constructor
  · rintro ⟨o', ho', reached⟩
    obtain rfl : o = o' := Option.some_inj.1 (ho.symm.trans ho')
    exact reached
  · intro reached
    exact ⟨o, ho, reached⟩

end Case

/-! ## The samples of a bar -/

/-- The levels that are counted, as a scan lists them. -/
def levelsOf (s : ScanSettings) (state : StateKey) : List StateKey :=
  if s.relaxed then state.levels else [state]

theorem mem_levelsOf {s : ScanSettings} {state level : StateKey} :
    level ∈ levelsOf s state ↔ Counted s.relaxed level state := by
  unfold levelsOf Counted
  cases s.relaxed with
  | true => simpa using StateKey.mem_levels_iff
  | false => simp

theorem nodup_levelsOf (s : ScanSettings) (state : StateKey) : (levelsOf s state).Nodup := by
  unfold levelsOf
  cases s.relaxed with
  | true => simpa using StateKey.nodup_levels state
  | false => simp

/-- The bursts at a bar. -/
def bursts (s : ScanSettings) (bars : Array Bar) (pip : Float) (i : Nat) : List Burst :=
  s.triggers.filterMap (burst? s bars pip i)

theorem mem_bursts_iff {s : ScanSettings} {bars : Array Bar} (ascending : Bar.Ascending bars.toList)
    {pip : Float} {i : Nat} {b : Burst} :
    b ∈ bursts s bars pip i ↔ ∃ t ∈ s.triggers, Fires bars pip s.gap i t b := by
  rw [bursts, List.mem_filterMap]
  simp only [burst?_eq_some_iff ascending]

/-- The samples that a bar contributes. -/
def samplesAt (s : ScanSettings) (bars : Array Bar) (pip : Float) (i : Nat) : List Sample :=
  match bars[i]?, s.state.compute (closesUpTo bars i) with
  | some bar, .ok state =>
    (bursts s bars pip i).flatMap fun b =>
      samplesOf b bar.close pip (levelsOf s state) (s.outcomes.map fun o => (o, extremes? bars i o))
  | _, _ => []

/-- **A bar contributes its bursts and its samples**, and always has an answer when horizons do not
look back and the state is proper. -/
theorem casesAt_eq {s : ScanSettings} {bars : Array Bar} (ascending : Bar.Ascending bars.toList)
    (forward : ∀ o ∈ s.outcomes, 0 ≤ o.minutes) (proper : s.state.Proper) (pip : Float) {i : Nat}
    (hi : i < bars.size) :
    casesAt s bars (bars.map Bar.closing) pip i
      = .ok ((bursts s bars pip i).length, samplesAt s bars pip i) := by
  obtain ⟨state, hstate⟩ := proper.exists_compute (closesUpTo bars i)
  have outcomes : (s.outcomes.mapM fun o => do
      return (o, ← ahead? bars (bars.map Bar.closing) i o) : Except Fault _)
        = .ok (s.outcomes.map fun o => (o, extremes? bars i o)) := by
    refine mapM_eq_ok fun o ho => ?_
    rw [ahead?_eq ascending hi (forward o ho)]
    rfl
  rw [casesAt, burstsAt_eq, ← bursts, samplesAt, Array.getElem?_eq_getElem hi, hstate]
  cases bursts s bars pip i with
  | nil => rfl
  | cons b rest =>
    dsimp only
    rw [stateAt_eq s hi, hstate]
    simp only [bind, Except.bind] at outcomes ⊢
    rw [outcomes]
    rfl

/-! ## A jump

What is said about scans can be seen on three bars. -/

/-- Three minutes of trading: ten pips up in the second, ten more in the third, of which twenty are
seen at its high. -/
def jump : Array Bar :=
  #[⟨0, 1.1, 1.1, 1.1, 1.1⟩, ⟨60000, 1.1, 1.101, 1.1, 1.101⟩, ⟨120000, 1.101, 1.103, 1.1, 1.102⟩]

/-- Eight pips within a minute, followed by fifteen more within the next. -/
def jumpSettings : ScanSettings where
  triggers := [⟨(8.0 : Float), 1⟩]
  outcomes := [⟨15.0, 1⟩]
  state := ⟨none, some (1, 1)⟩
  alpha := 1.0
  gap := 60000
  relaxed := true

theorem jump_valid : validate "EURUSD" jump = .ok () := by
  have computed : (validate "EURUSD" jump).toOption.any (fun _ => true) = true := by decide +kernel
  obtain ⟨_, valid, -⟩ := exists_ok_of_any computed
  exact valid

theorem jumpSettings_proper : jumpSettings.state.Proper := by
  intro short long h
  cases h
  decide

end FxPulse.Scan
