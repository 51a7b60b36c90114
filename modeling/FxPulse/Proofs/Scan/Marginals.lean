import FxPulse.Proofs.Scan.Counts
import FxPulse.Proofs.Scan.Rows

/-!
# `Proofs/Scan/Marginals.lean` — coarser states are sums of finer ones

A scan that counts for coarser states too enters each case once for every level of the state at its bar.
Live matching falls back on these counts, so they have to be what one gets by adding up:

> under a key that does not say all that states say, a relaxed scan counts the sum of what it counts under
> the keys that say one thing more; and under the keys that say all, it counts what a scan counts that is
> not relaxed (`run_marginals`).

The two scans go side by side, one step at a time, and a step enters for the one what it enters for the
other, spread over the levels (`casesAt_spread`). After that it is a matter of counting: a case counts for
a level exactly if it counts for one of the levels longer by one (`countP_levels_finer`).
-/

set_option autoImplicit false

namespace FxPulse

/-! ## Keys that say one thing more -/

/-- The key is for the same event, and says one thing more about the state. -/
def RowKey.IsFiner (fine key : RowKey) : Prop :=
  key.SameEvent fine ∧ fine.state.size = key.state.size + 1 ∧ key.state.IsLevelOf fine.state

instance (fine key : RowKey) : Decidable (fine.IsFiner key) :=
  inferInstanceAs (Decidable (key.SameEvent fine ∧ fine.state.size = key.state.size + 1 ∧
    key.state.IsLevelOf fine.state))

/-- What a tally holds under the keys that say one thing more than a key. -/
def Tally.finer (t : Tally) (key : RowKey) : List Counts :=
  (t.toList.filter fun entry => entry.1.IsFiner key).map (·.2)

/-- A relaxed scan and one that is not, of states that say so many things: the one has the other's counts
under the keys that say all, and sums of its own under the others. -/
structure Marginal (depth : Nat) (relaxed strict : InstrumentScan) : Prop where
  symbol : relaxed.symbol = strict.symbol
  bars : relaxed.bars = strict.bars
  fired : relaxed.fired = strict.fired
  /-- No key says more than states do. -/
  bounded : ∀ key ∈ relaxed.tally, key.state.size ≤ depth
  sums : ∀ key : RowKey, key.state.size < depth →
    (relaxed.tally.counts key).total = ((relaxed.tally.finer key).map (·.total)).sum ∧
      (relaxed.tally.counts key).successes = ((relaxed.tally.finer key).map (·.successes)).sum
  full : ∀ key : RowKey, key.state.size = depth → relaxed.tally[key]? = strict.tally[key]?
  only : ∀ key ∈ strict.tally, key.state.size = depth

/-! ## Counting through keys -/

theorem sum_count_filter {κ : Type} [DecidableEq κ] {keys l : List κ} (nodup : keys.Nodup)
    (held : ∀ k ∈ l, k ∈ keys) (q : κ → Prop) [DecidablePred q] :
    ((keys.filter fun k => q k).map fun k => l.count k).sum = l.countP fun k => q k := by
  rw [← List.sum_toFinset _ (nodup.filter _), ← Finset.sum_filter_count_eq_countP]
  symm
  -- There may be keys that nothing in the list is; they add nothing.
  apply Finset.sum_subset
  · intro k hk
    obtain ⟨here, own⟩ := Finset.mem_filter.1 hk
    simp [own, held k (List.mem_toFinset.1 here)]
  · intro k hk outside
    rw [List.count_eq_zero]
    intro here
    apply outside
    have own : q k := by
      have listed := List.mem_toFinset.1 hk
      simpa using (List.mem_filter.1 listed).2
    simp [here, own]

theorem Sample.countP_isFor (want : Bool → Bool) (key : RowKey) (samples : List Sample) :
    samples.countP (isFor want key)
      = ((samples.filter fun x => want x.success).map (·.key)).count key := by
  rw [List.count, List.countP_map, List.countP_filter]
  rfl

namespace Tally

theorem sum_entries (t : Tally) (q : RowKey → Prop) [DecidablePred q] (f : Counts → Nat) :
    (((t.toList.filter fun entry => q entry.1).map (·.2)).map f).sum
      = ((t.keys.filter fun key => q key).map fun key => f (t.counts key)).sum := by
  have entries : (t.toList.filter fun entry => q entry.1).map (fun entry => f entry.2)
      = (t.toList.filter fun entry => q entry.1).map fun entry => f (t.counts entry.1) := by
    apply List.map_congr_left
    intro entry listed
    obtain ⟨key, counts⟩ := entry
    have own := Std.ExtTreeMap.mem_toList_iff_getElem?_eq_some.1 (List.mem_filter.1 listed).1
    rw [Tally.counts, Std.ExtTreeMap.getD_eq_getD_getElem?, own, Option.getD_some]
  rw [List.map_map]
  change ((t.toList.filter fun entry => q entry.1).map fun entry => f entry.2).sum = _
  rw [entries, ← Std.ExtTreeMap.map_fst_toList_eq_keys, List.filter_map, List.map_map]
  rfl

/-- The sum of what is counted under keys with a property is the number of samples for them. -/
theorem sum_keys (samples : List Sample) (want : Bool → Bool) (q : RowKey → Prop) [DecidablePred q] :
    (((addAll ∅ samples).keys.filter fun key => q key).map fun key =>
        samples.countP (Sample.isFor want key)).sum
      = samples.countP fun x => want x.success && decide (q x.key) := by
  simp only [Sample.countP_isFor]
  rw [sum_count_filter Std.ExtTreeMap.nodup_keys, List.countP_map, List.countP_filter]
  · apply List.countP_congr
    intro x _
    simp [and_comm]
  · intro key listed
    obtain ⟨x, hx, rfl⟩ := List.mem_map.1 listed
    rw [Std.ExtTreeMap.mem_keys]
    exact mem_addAll.2 (Or.inr ⟨x, List.mem_of_mem_filter hx, rfl⟩)

theorem sum_finer (samples : List Sample) (key : RowKey) :
    (((addAll ∅ samples).finer key).map (·.total)).sum
        = samples.countP (fun x => decide (x.key.IsFiner key)) ∧
      (((addAll ∅ samples).finer key).map (·.successes)).sum
        = samples.countP fun x => x.success && decide (x.key.IsFiner key) := by
  constructor
  · rw [finer, sum_entries _ (fun fine => fine.IsFiner key)]
    simp only [counts_addAll_empty]
    rw [sum_keys samples (fun _ => true)]
    simp
  · rw [finer, sum_entries _ (fun fine => fine.IsFiner key)]
    simp only [counts_addAll_empty]
    rw [sum_keys samples id]
    rfl

theorem getElem?_addAll_congr {samples others : List Sample} {key : RowKey}
    (same : ∀ want : Bool → Bool,
      samples.countP (Sample.isFor want key) = others.countP (Sample.isFor want key)) :
    (addAll ∅ samples)[key]? = (addAll ∅ others)[key]? := by
  have counted : counts (addAll ∅ samples) key = counts (addAll ∅ others) key := by
    rw [counts_addAll_empty, counts_addAll_empty, same, same]
  -- A key is listed exactly if something counts for it, so both list it or neither does.
  have listed : key ∈ addAll ∅ samples ↔ key ∈ addAll ∅ others := by
    rw [mem_addAll_empty, mem_addAll_empty, counted]
  by_cases there : key ∈ addAll ∅ samples
  · have both := listed.1 there
    simp only [counts, Std.ExtTreeMap.getD_eq_getD_getElem?,
      Std.ExtTreeMap.getElem?_eq_some_getElem there,
      Std.ExtTreeMap.getElem?_eq_some_getElem both, Option.getD_some] at counted ⊢
    rw [counted]
  · rw [Std.ExtTreeMap.getElem?_eq_none there,
      Std.ExtTreeMap.getElem?_eq_none (mt listed.2 there)]

end Tally

/-! ## Samples spread over the levels of their state -/

namespace Sample

/-- The sample, once for every level of its state. -/
def spread (x : Sample) : List Sample := x.onLevels x.key.state.levels

theorem countP_spread (want : Bool → Bool) (key : RowKey) (x : Sample) :
    x.spread.countP (isFor want key)
      = if key.SameEvent x.key ∧ key.state ∈ x.key.state.levels ∧ want x.success = true
        then 1 else 0 :=
  countP_onLevels want key x (StateKey.nodup_levels _)

theorem countP_spread_self (x : Sample) (want : Bool → Bool) {key : RowKey}
    (full : key.state.size = x.key.state.size) :
    x.spread.countP (isFor want key) = if isFor want key x = true then 1 else 0 := by
  rw [countP_spread]
  refine if_congr ?_ rfl rfl
  have own : isFor want key x = true ↔ _ := isFor_onLevel want key x x.key.state
  rw [own, StateKey.mem_levels_iff]
  constructor
  · rintro ⟨same, level, wanted⟩
    -- The only level as long as the state is the state.
    have whole := StateKey.take_size_of_isLevelOf level
    rw [full] at whole
    exact ⟨same, (StateKey.take_size x.key.state).symm.trans whole, wanted⟩
  · rintro ⟨same, state, wanted⟩
    refine ⟨same, ?_, wanted⟩
    rw [state]
    exact List.prefix_refl _

/-- A sample counts for a key exactly if it counts for a finer one. -/
theorem countP_spread_finer (want : Bool → Bool) {key : RowKey} {x : Sample}
    (shorter : key.state.size < x.key.state.size) :
    x.spread.countP (fun y => want y.success && decide (y.key.IsFiner key))
      = x.spread.countP (isFor want key) := by
  rw [countP_spread, spread, onLevels, List.countP_map]
  by_cases named : key.SameEvent x.key ∧ want x.success = true
  · -- What is left to count are the levels one longer than the key that the key is a level of.
    have finer : ((fun y : Sample => want y.success && decide (y.key.IsFiner key)) ∘
        fun level => ⟨{ x.key with state := level }, x.success⟩)
          = fun level => decide (level.size = key.state.size + 1 ∧ key.state.IsLevelOf level) := by
      funext level
      have same : key.SameEvent { x.key with state := level } := named.1
      simp [RowKey.IsFiner, same, named.2]
    rw [finer, StateKey.countP_levels_finer shorter]
    refine if_congr ?_ rfl rfl
    exact ⟨fun h => ⟨named.1, h, named.2⟩, fun h => h.2.1⟩
  · rw [if_neg fun h => named ⟨h.1, h.2.2⟩, List.countP_eq_zero]
    intro level _ counted
    simp only [Function.comp_apply, Bool.and_eq_true, decide_eq_true_eq] at counted
    exact named ⟨counted.2.1, counted.1⟩

end Sample

/-! ## Two scans side by side -/

/-- The scans have gone through the same bars. What the one has entered the other has entered spread over
the levels, and it was entered for states that say so many things. -/
structure Spread (depth : Nat) (relaxed strict : InstrumentScan) : Prop where
  symbol : relaxed.symbol = strict.symbol
  bars : relaxed.bars = strict.bars
  fired : relaxed.fired = strict.fired
  tallies : ∃ samples : List Sample, strict.tally = Tally.addAll ∅ samples ∧
    relaxed.tally = Tally.addAll ∅ (samples.flatMap Sample.spread) ∧
      ∀ x ∈ samples, x.key.state.size = depth

namespace Scan

theorem samplesOf_levels (b : Burst) (close pip : Float) (state : StateKey)
    (outcomes : List (Outcome × Option Extremes)) :
    samplesOf b close pip state.levels outcomes
      = (samplesOf b close pip [state] outcomes).flatMap Sample.spread := by
  unfold samplesOf
  rw [List.flatMap_assoc]
  congr 1
  funext entry
  obtain ⟨o, extremes⟩ := entry
  cases extremes with
  | none => rfl
  | some e => simp [Sample.spread, Sample.onLevels]

section Strict

variable (s : ScanSettings) (bars : Array Bar) (closings : Array Point) (pip : Float) (i : Nat)

/-- **A relaxed scan enters the same samples, spread over the levels.** -/
theorem casesAt_spread :
    casesAt { s with relaxed := true } bars closings pip i
      = (casesAt { s with relaxed := false } bars closings pip i).map fun found =>
          (found.1, found.2.flatMap Sample.spread) := by
  have sameBursts : burstsAt { s with relaxed := true } closings pip i
      = burstsAt { s with relaxed := false } closings pip i := rfl
  have sameState : stateAt { s with relaxed := true } closings i
      = stateAt { s with relaxed := false } closings i := rfl
  unfold casesAt
  dsimp only
  rw [sameBursts, sameState]
  -- Both look for the same bursts, and fail on the same state or the same outcomes.
  cases burstsAt { s with relaxed := false } closings pip i with
  | nil => rfl
  | cons b rest =>
    cases bars[i]? with
    | none => rfl
    | some bar =>
      dsimp only
      rw [map_bind]
      congr 1
      funext state
      rw [map_bind]
      congr 1
      funext outcomes
      simp only [pure, Except.pure, Except.map, Except.ok.injEq, Prod.mk.injEq, true_and]
      rw [List.flatMap_assoc]
      congr 1
      funext burst
      exact samplesOf_levels burst bar.close pip state outcomes

theorem size_of_mem_casesAt {found : Nat × List Sample}
    (h : casesAt { s with relaxed := false } bars closings pip i = .ok found) :
    ∀ x ∈ found.2, x.key.state.size = s.state.depth := by
  unfold casesAt at h
  dsimp only at h
  intro x hx
  split at h
  · obtain ⟨state, hstate, h⟩ := bind_eq_ok_iff.1 h
    obtain ⟨outcomes, -, h⟩ := bind_eq_ok_iff.1 h
    cases h
    obtain ⟨burst, -, hx⟩ := List.mem_flatMap.1 hx
    have level : x.key.state ∈ [state] := state_mem_of_mem_samplesOf hx
    rw [List.mem_singleton.1 level]
    exact StateSpec.size_of_compute hstate
  · cases h
    cases hx

/-- Bar by bar the scans stay side by side, and are called off or fail at the same one. -/
theorem step_spread (cancelled : Nat → Bool) {relaxed strict : InstrumentScan}
    (h : Spread s.state.depth relaxed strict) :
    Agree (Spread s.state.depth)
      (step { s with relaxed := true } cancelled bars closings pip relaxed i)
      (step { s with relaxed := false } cancelled bars closings pip strict i) := by
  unfold step
  by_cases off : (i % checkEvery = 0 && cancelled i) = true
  · rw [if_pos off, if_pos off, h.symbol]
    exact rfl
  · rw [if_neg off, if_neg off, casesAt_spread]
    cases found : casesAt { s with relaxed := false } bars closings pip i with
    | error fault => exact rfl
    | ok answer =>
      obtain ⟨samples, strictly, spread, sizes⟩ := h.tallies
      refine ⟨h.symbol, h.bars, congrArg (· + answer.1) h.fired, samples ++ answer.2, ?_, ?_, ?_⟩
      · simp only [strictly, Tally.addAll, List.foldl_append]
      · simp only [spread, Tally.addAll, List.foldl_append, List.flatMap_append]
      · intro x hx
        rcases List.mem_append.1 hx with before | now
        · exact sizes x before
        · exact size_of_mem_casesAt s bars closings pip i found x now

end Strict

theorem run_spread (s : ScanSettings) (cancelled : Nat → Bool) (symbol : String) (bars : Array Bar)
    (pip : Float) :
    Agree (Spread s.state.depth) (run { s with relaxed := true } cancelled symbol bars pip)
      (run { s with relaxed := false } cancelled symbol bars pip) := by
  unfold run
  cases validate symbol bars with
  | error cause => exact rfl
  | ok sound =>
    apply Agree.foldlM
    · intro i relaxed strict side
      exact step_spread s bars _ pip i cancelled side
    · exact ⟨rfl, rfl, rfl, [], rfl, rfl, by simp⟩

end Scan

/-! ## Marginals -/

section Counting

variable {samples : List Sample} {depth : Nat} (sizes : ∀ x ∈ samples, x.key.state.size = depth)
include sizes

theorem countP_spread_eq (want : Bool → Bool) {key : RowKey} (shorter : key.state.size < depth) :
    (samples.flatMap Sample.spread).countP (Sample.isFor want key)
      = (samples.flatMap Sample.spread).countP fun x =>
          want x.success && decide (x.key.IsFiner key) := by
  rw [List.countP_flatMap, List.countP_flatMap]
  congr 1
  apply List.map_congr_left
  intro x hx
  symm
  apply Sample.countP_spread_finer
  rw [sizes x hx]
  exact shorter

theorem countP_spread_full (want : Bool → Bool) {key : RowKey} (full : key.state.size = depth) :
    (samples.flatMap Sample.spread).countP (Sample.isFor want key)
      = samples.countP (Sample.isFor want key) := by
  induction samples with
  | nil => rfl
  | cons x rest ih =>
    obtain ⟨size, sizes⟩ := List.forall_mem_cons.1 sizes
    rw [List.flatMap_cons, List.countP_append, List.countP_cons, ih sizes,
      x.countP_spread_self want (full.trans size.symm), Nat.add_comm]

end Counting

theorem Spread.marginal {depth : Nat} {relaxed strict : InstrumentScan}
    (h : Spread depth relaxed strict) : Marginal depth relaxed strict := by
  obtain ⟨symbol, bars, fired, samples, strictly, spread, sizes⟩ := h
  refine ⟨symbol, bars, fired, ?_, ?_, ?_, ?_⟩
  · intro key listed
    rw [spread, Tally.mem_addAll] at listed
    obtain ⟨y, hy, rfl⟩ := listed.resolve_left (by simp)
    obtain ⟨x, hx, hy⟩ := List.mem_flatMap.1 hy
    obtain ⟨level, hlevel, rfl⟩ := List.mem_map.1 hy
    rw [← sizes x hx]
    exact (StateKey.mem_levels_iff.1 hlevel).length_le
  · intro key shorter
    obtain ⟨totals, successes⟩ := Tally.sum_finer (samples.flatMap Sample.spread) key
    rw [spread, totals, successes, Tally.counts_addAll_empty]
    constructor
    · refine (countP_spread_eq sizes (fun _ => true) shorter).trans ?_
      simp
    · exact countP_spread_eq sizes id shorter
  · intro key full
    rw [spread, strictly]
    apply Tally.getElem?_addAll_congr
    intro want
    exact countP_spread_full sizes want full
  · intro key listed
    rw [strictly, Tally.mem_addAll] at listed
    obtain ⟨x, hx, rfl⟩ := listed.resolve_left (by simp)
    exact sizes x hx

namespace Scan

/-- **Coarser states are sums of finer ones.** A relaxed scan and one that is not fail alike, or both have
answers. Then they have gone through the same bars and seen the same bursts; no key of the relaxed scan
says more than states do; under the keys that say all it has what the other one has, which has no other
keys; and under any other key stand the sums of what stands under the keys that say one thing more. Both
have answers when the bars can be scanned, no horizon looks back, the state is proper and nobody calls the
scan off. -/
theorem run_marginals (s : ScanSettings) (cancelled : Nat → Bool) (symbol : String)
    (bars : Array Bar) (pip : Float) :
    Agree (Marginal s.state.depth) (run { s with relaxed := true } cancelled symbol bars pip)
      (run { s with relaxed := false } cancelled symbol bars pip) ∧
    (validate symbol bars = .ok () → (∀ o ∈ s.outcomes, 0 ≤ o.minutes) → s.state.Proper →
      (∀ i, cancelled i = false) →
      ∃ relaxed strict, run { s with relaxed := true } cancelled symbol bars pip = .ok relaxed ∧
        run { s with relaxed := false } cancelled symbol bars pip = .ok strict ∧
        Marginal s.state.depth relaxed strict) := by
  have agree : Agree (Marginal s.state.depth)
      (run { s with relaxed := true } cancelled symbol bars pip)
      (run { s with relaxed := false } cancelled symbol bars pip) := by
    apply (run_spread s cancelled symbol bars pip).mono
    intro relaxed strict side
    exact side.marginal
  refine ⟨agree, ?_⟩
  intro valid forward proper uncancelled
  have strictly := run_eq (s := { s with relaxed := false }) valid forward proper uncancelled pip
  obtain ⟨relaxed, found, marginal⟩ := agree.exists_ok strictly
  exact ⟨relaxed, _, found, strictly, marginal⟩

/-- Ten pips up every minute; the highs are fifteen pips above the close before, but for the last. -/
def climb : Array Bar :=
  #[⟨0, 1.1, 1.1, 1.1, 1.1⟩, ⟨60000, 1.1, 1.1015, 1.1, 1.101⟩, ⟨120000, 1.101, 1.1025, 1.101, 1.102⟩,
    ⟨180000, 1.102, 1.1035, 1.102, 1.103⟩, ⟨240000, 1.103, 1.1045, 1.103, 1.104⟩,
    ⟨300000, 1.104, 1.1055, 1.104, 1.105⟩, ⟨360000, 1.105, 1.106, 1.105, 1.106⟩]

/-- The settings of the jump, with relative strength for a state. It is known from the fifth bar on. -/
def climbSettings : ScanSettings := { jumpSettings with state := ⟨some 1, none⟩ }

/-- Three of the cases of the climb come before its state is known, and two after. Under the key that says
nothing stand all five, with the successes of both. -/
theorem run_marginals_climb :
    validate "EURUSD" climb = .ok () ∧ (∀ o ∈ climbSettings.outcomes, 0 ≤ o.minutes) ∧
    climbSettings.state.Proper ∧ climbSettings.state.depth = 1 ∧
    ∃ relaxed strict,
      run { climbSettings with relaxed := true } (fun _ => false) "EURUSD" climb 0.0001 = .ok relaxed ∧
      run { climbSettings with relaxed := false } (fun _ => false) "EURUSD" climb 0.0001 = .ok strict ∧
      strict.tally.toList.map (·.2) = [⟨1, 2⟩, ⟨3, 3⟩] ∧
      relaxed.tally.finer ⟨"M8_W1", "K15_T1", .up, ∅⟩ = [⟨1, 2⟩, ⟨3, 3⟩] ∧
      relaxed.tally.counts ⟨"M8_W1", "K15_T1", .up, ∅⟩ = ⟨4, 5⟩ := by
  have sound : (validate "EURUSD" climb).toOption.any (fun _ => true) = true := by decide +kernel
  obtain ⟨_, valid, -⟩ := exists_ok_of_any sound
  have forward : ∀ o ∈ climbSettings.outcomes, 0 ≤ o.minutes := by decide +kernel
  have proper : climbSettings.state.Proper := by
    intro short long given
    cases given
  refine ⟨valid, forward, proper, rfl, ?_⟩
  obtain ⟨relaxed, strict, found, strictly, marginal⟩ :=
    (run_marginals climbSettings (fun _ => false) "EURUSD" climb 0.0001).2 valid forward proper
      fun _ => rfl
  have counted : (run { climbSettings with relaxed := false } (fun _ => false) "EURUSD" climb
      0.0001).toOption.map (fun scan => scan.tally.toList.map (·.2)) = some [⟨1, 2⟩, ⟨3, 3⟩] := by
    decide +kernel
  have spread : (run { climbSettings with relaxed := true } (fun _ => false) "EURUSD" climb
      0.0001).toOption.map (fun scan => scan.tally.finer ⟨"M8_W1", "K15_T1", .up, ∅⟩)
      = some [⟨1, 2⟩, ⟨3, 3⟩] := by
    decide +kernel
  rw [strictly] at counted
  rw [found] at spread
  have entries : relaxed.tally.finer ⟨"M8_W1", "K15_T1", .up, ∅⟩ = [⟨1, 2⟩, ⟨3, 3⟩] :=
    Option.some.inj spread
  obtain ⟨total, successes⟩ := marginal.sums ⟨"M8_W1", "K15_T1", .up, ∅⟩ (by decide)
  rw [entries] at total successes
  exact ⟨relaxed, strict, found, strictly, Option.some.inj counted, entries,
    congrArg₂ Counts.mk successes total⟩

end Scan

end FxPulse
