import FxPulse.Proofs.Edge.Attempts
import FxPulse.Proofs.Edge.Live
import FxPulse.Proofs.Scan.Counts
import FxPulse.Proofs.Table.Index

/-!
# `Proofs/Edge/Scanned.lean` — what was counted is found again

Bars are scanned, the counts become rows, the rows a table; later prices come in that are the closes of
some of these bars. Live matching then has to find the very state it is in, under the label of the first
trigger that fires, and it does:

> where a scan has seen a trigger fire and could judge some outcome, live matching on the same closes
> matches exactly.

On the way from the count to the match everything has to agree that names anything: the labels, the
levels of the state, the slot of the row, the order of the triggers.
-/

set_option autoImplicit false

namespace FxPulse

section Match

variable {e : EdgeSettings} {store : TickStore} {table : Table} {symbol : String} {series : Series}
  (held : store.read? symbol = some series)
include held

/-- A row with enough cases for the first burst in the very state is matched exactly. -/
theorem matchEdge_exact {b : Burst} {rest : List Burst} {state : StateKey} {row : Row}
    (fires : firedBy e series (e.pips.pip symbol) = b :: rest)
    (hstate : e.state.compute (recentMinuteCloses series.points e.state.lookback).toArray = .ok state)
    (among : row ∈ eligible (table.candidates ⟨symbol, b.trigger.label, b.direction⟩) state)
    (enough : e.minTotal ≤ row.counts.total) :
    ∃ reading, matchEdge e store table symbol = .ok (.matched reading) ∧ reading.exact = true ∧
      reading.trigger = b.trigger.label ∧ reading.direction = b.direction ∧
      reading.movePips = b.movePips ∧ reading.state = state := by
  obtain ⟨later, all⟩ := attempts_cons table symbol state b rest
  obtain ⟨best, wins⟩ := Attempt.exists_winner (a := ⟨b, state,
    eligible (table.candidates ⟨symbol, b.trigger.label, b.direction⟩) state⟩) among enough
  refine ⟨⟨b.trigger.label, b.direction, b.movePips, state, state == state, best⟩, ?_, ?_⟩
  · rw [matchEdge_eq held fires hstate, all, settle_cons wins]
  · exact ⟨beq_self_eq_true state, rfl, rfl, rfl, rfl⟩

end Match

namespace Scan

/-! ## The row of a case -/

/-- A case that can be judged is entered for the whole state of its bar. -/
theorem exists_sample {s : ScanSettings} {bars : Array Bar} {pip : Float} {i : Nat}
    (hi : i < bars.size) {state : StateKey} (hstate : s.state.compute (closesUpTo bars i) = .ok state)
    {b : Burst} (fired : b ∈ bursts s bars pip i) {o : Outcome} (listed : o ∈ s.outcomes)
    (judged : Judged bars i o) :
    ∃ sample ∈ samples s bars pip,
      sample.key = ⟨b.trigger.label, o.label, b.direction, state⟩ := by
  have whole : state ∈ levelsOf s state := by
    rw [mem_levelsOf, Counted]
    split
    · exact List.prefix_refl _
    · rfl
  obtain ⟨e, extremes⟩ : ∃ e, extremes? bars i o = some e :=
    ⟨_, (extremes?_eq_some_iff hi).2 ⟨judged, rfl⟩⟩
  let sample : Sample := ⟨⟨b.trigger.label, o.label, b.direction, state⟩,
    o.reachedBy (e.excursion bars[i].close b.direction / pip)⟩
  have counted : sample ∈ samplesOf b bars[i].close pip (levelsOf s state)
      (s.outcomes.map fun o => (o, extremes? bars i o)) :=
    List.mem_flatMap.2 ⟨(o, some e), List.mem_map.2 ⟨o, listed, by rw [extremes]⟩,
      List.mem_map.2 ⟨state, whole, rfl⟩⟩
  refine ⟨sample, List.mem_flatMap.2 ⟨i, List.mem_range.2 hi, ?_⟩, rfl⟩
  rw [samplesAt, Array.getElem?_eq_getElem hi, hstate]
  exact List.mem_flatMap.2 ⟨b, fired, counted⟩

/-- The table of a scan has a row for the state of a bar under each burst there, with a case. -/
theorem exists_candidate {s : ScanSettings} {bars : Array Bar} {pip : Float} {scan : InstrumentScan}
    (counted : scan.tally = Tally.addAll ∅ (samples s bars pip)) {i : Nat} (hi : i < bars.size)
    {state : StateKey} (hstate : s.state.compute (closesUpTo bars i) = .ok state) {b : Burst}
    (fired : b ∈ bursts s bars pip i) {o : Outcome} (listed : o ∈ s.outcomes)
    (judged : Judged bars i o) (alpha : Float) :
    ∃ row ∈ eligible ((Table.ofRows (scan.rows alpha)).candidates
        ⟨scan.symbol, b.trigger.label, b.direction⟩) state, 1 ≤ row.counts.total := by
  obtain ⟨sample, entered, named⟩ := exists_sample hi hstate fired listed judged
  obtain ⟨counts, held, some_case⟩ := Tally.exists_mem_toList entered
  refine ⟨Row.ofCounts scan.symbol alpha sample.key counts, ?_, some_case⟩
  rw [eligible, Table.candidates_ofRows, List.mem_filter, List.mem_filter]
  refine ⟨⟨?_, ?_⟩, ?_⟩
  · rw [InstrumentScan.rows, counted]
    exact List.mem_map_of_mem held
  · simp [Row.slot, Row.ofCounts, named]
  · simp [Row.ofCounts, named]

/-! ## Live matching -/

/-- **A scanned context is found again.** With the table of a scan, and a store that holds the closes of
the bars up to some bar: live matching has no trigger if none fires there; and if one does, and some
outcome can be judged there, it matches the state at the bar exactly, under the first trigger in order
of priority that fires. -/
theorem matchEdge_scanned {s : ScanSettings} {symbol : String} {bars : Array Bar}
    (valid : validate symbol bars = .ok ())
    (apart : Point.OnePerMinute (bars.map Bar.closing).toList)
    (windows : ∀ t ∈ s.triggers, 1 ≤ t.minutes) (horizons : ∀ o ∈ s.outcomes, 1 ≤ o.minutes)
    (proper : s.state.Proper) (cancelled : Nat → Bool) (uncancelled : ∀ i, cancelled i = false)
    {i : Nat} (hi : i < bars.size) {series : Series}
    (filled : series.points.toList = closingsUpTo bars i) {store : TickStore}
    (held : store.read? symbol = some series)
    {minTotal : Nat} (few : minTotal ≤ 1) (pips : PipSizes) (alpha : Float) :
    ∃ scan found, run s cancelled symbol bars (pips.pip symbol) = .ok scan ∧
      triggersAt s bars i (pips.pip symbol) = .ok found ∧
      (found = [] →
        matchEdge (s.live minTotal pips) store (Table.ofRows (scan.rows alpha)) symbol
          = .ok (.noMatch .noTrigger)) ∧
      (found ≠ [] → (∃ o ∈ s.outcomes, Judged bars i o) →
        ∃ reading earlier first later b,
          matchEdge (s.live minTotal pips) store (Table.ofRows (scan.rows alpha)) symbol
            = .ok (.matched reading) ∧
          Trigger.prioritize s.triggers = earlier ++ first :: later ∧
          (∀ t ∈ earlier, ∀ b, ¬ Fires bars (pips.pip symbol) s.gap i t b) ∧
          Fires bars (pips.pip symbol) s.gap i first b ∧
          reading.exact = true ∧ reading.trigger = first.label ∧
          reading.direction = b.direction ∧ reading.movePips = b.movePips ∧
          ∀ f ∈ found, f.2 = reading.state) := by
  have ascending := ascending_of_valid valid
  have forward : ∀ o ∈ s.outcomes, 0 ≤ o.minutes := fun o ho => by
    have := horizons o ho
    omega
  obtain ⟨scan, ran, counted, rfl⟩ : ∃ scan, run s cancelled symbol bars (pips.pip symbol) = .ok scan ∧
      scan.tally = Tally.addAll ∅ (samples s bars (pips.pip symbol)) ∧ scan.symbol = symbol :=
    ⟨_, run_eq valid forward proper uncancelled _, rfl, rfl⟩
  obtain ⟨state, hstate, found⟩ := triggersAt_eq proper hi (pips.pip scan.symbol)
  have same := firedBy_perm hi filled ascending windows minTotal pips (pips.pip scan.symbol)
  refine ⟨scan, _, ran, found, ?_, ?_⟩
  · intro none_found
    rw [List.map_eq_nil_iff.1 none_found] at same
    exact matchEdge_silent held same.eq_nil
  · rintro some_found ⟨o, listed, judged⟩
    cases fires : firedBy (s.live minTotal pips) series (pips.pip scan.symbol) with
    | nil =>
      rw [fires] at same
      exact absurd (List.map_eq_nil_iff.2 same.symm.eq_nil) some_found
    | cons b rest =>
      have fired : b ∈ bursts s bars (pips.pip scan.symbol) i :=
        same.mem_iff.1 (fires ▸ List.mem_cons_self)
      obtain ⟨earlier, first, later, order, quiet, here⟩ :=
        exists_first hi filled ascending windows fires
      obtain ⟨row, among, some_case⟩ :=
        exists_candidate counted hi hstate fired listed judged alpha
      obtain ⟨reading, matched, exact_state, trigger, direction, move, own⟩ := matchEdge_exact held fires
        ((compute_filled filled apart s.state).trans hstate) among (few.trans some_case)
      rw [here.trigger_eq] at trigger
      refine ⟨reading, earlier, first, later, b, matched, order, quiet, here, exact_state, trigger,
        direction, move, ?_⟩
      intro f hf
      obtain ⟨_, -, rfl⟩ := List.mem_map.1 hf
      exact own.symm

end Scan

end FxPulse
