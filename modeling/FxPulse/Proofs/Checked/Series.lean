import FxPulse.Proofs.Checked.Points
import FxPulse.Proofs.History.Retained

/-!
# `Proofs/Checked/Series.lean` — series that forget, in words

A series computes the time from which it keeps its points, and a point is pushed by then. Where a word
holds that time, the series is the one that retention leaves (`seriesOfferAll_eq`). Where none does, the
program has broken off behind the push, or the time has come out somewhere else, and what is kept has
nothing to do with retention; but no place in the series is wrong.
-/

set_option autoImplicit false

namespace FxPulse.Checked

open FxPulse.Number

variable {b : Build}

/-! ## Series -/

section Fits

variable {s : Series} {p : Point}

theorem prune_eq {now : Int} (fits : fitsSigned (now - s.retention) = true) (b : Build) :
    prune b s now = .ok (s.prune now) := by
  rw [prune, signed_eq fits]
  rfl

theorem seriesPush_eq (fits : fitsSigned (p.ts - s.retention) = true) (b : Build) :
    seriesPush b s p = .ok (s.push p) := by
  have pruned := prune_eq (s := { s with points := s.points.push p }) fits b
  rw [seriesPush, Series.push, pruned]
  cases s.latest? with
  | none => rfl
  | some last =>
    dsimp only
    split <;> rfl

end Fits

theorem retention_push {s grown : Series} {p : Point} (pushed : s.push p = .ok grown) :
    grown.retention = s.retention := by
  obtain ⟨-, rfl⟩ := Series.push_eq_ok_iff.1 pushed
  rfl

theorem retention_after (s : Series) (p : Point) : (s.after p).retention = s.retention := by
  rw [Series.after]
  cases pushed : s.push p with
  | error regressed => rfl
  | ok grown => exact retention_push pushed

/-- **Many pushes**: where all their cutoffs fit, a series is what it would be with numbers of any size. -/
theorem seriesOfferAll_eq {s : Series} {calls : List Point}
    (fits : ∀ p ∈ calls, fitsSigned (p.ts - s.retention) = true) (b : Build) :
    seriesOfferAll b s calls = .ok (s.offerAll calls) := by
  induction calls generalizing s with
  | nil => rfl
  | cons p rest ih =>
    obtain ⟨first, later⟩ := List.forall_mem_cons.1 fits
    have next : (s.push p).toOption.getD s = s.after p := by
      rw [Series.after]
      cases s.push p <;> rfl
    rw [seriesOfferAll, List.foldlM_cons, seriesPush_eq first, ok_bind, next]
    exact ih fun q mem => by rw [retention_after]; exact later q mem

theorem prune_ends (s : Series) (now : Int) : Ends b (prune b s now) :=
  (Ends.signed _).bind fun _ _ => .ok _

theorem seriesPush_ends (s : Series) (p : Point) : Ends b (seriesPush b s p) := by
  unfold seriesPush
  split
  · split
    · exact .ok _
    · exact (prune_ends _ _).map
  · exact (prune_ends _ _).map

/-- Whatever the cutoff comes to, pruning drops points from the front. -/
theorem suffix_of_prune {s pruned : Series} {now : Int} (h : prune b s now = .ok pruned) :
    pruned.points.toList <:+ s.points.toList := by
  obtain ⟨cutoff, -, h⟩ := bind_eq_ok_iff.1 h
  cases h
  dsimp only
  rw [toList_extract_size]
  exact List.drop_suffix _ _

theorem suffix_of_seriesPush {s grown : Series} {p : Point} (h : seriesPush b s p = .ok (.ok grown)) :
    grown.points.toList <:+ s.points.toList ++ [p] := by
  have pruned : (.ok <$> prune b { s with points := s.points.push p } p.ts
      : Checked (Except Regression Series)) = .ok (.ok grown) := by
    unfold seriesPush at h
    split at h
    · split at h
      · cases h
      · exact h
    · exact h
  obtain ⟨own, found, same⟩ := bind_eq_ok_iff.1 pruned
  obtain rfl := Except.ok.inj (Except.ok.inj same)
  simpa using suffix_of_prune found

/-- A series holds nothing but what was in it and what has been pushed. -/
theorem sublist_of_seriesOfferAll {s grown : Series} {calls : List Point}
    (h : seriesOfferAll b s calls = .ok grown) :
    grown.points.toList.Sublist (s.points.toList ++ calls) := by
  induction calls generalizing s with
  | nil =>
    cases h
    rw [List.append_nil]
  | cons p rest ih =>
    obtain ⟨mid, first, later⟩ := foldlM_cons_eq_ok_iff.1 h
    obtain ⟨pushed, found, first⟩ := bind_eq_ok_iff.1 first
    have step : mid.points.toList.Sublist (s.points.toList ++ [p]) := by
      obtain rfl := Except.ok.inj first
      cases pushed with
      | ok own => exact (suffix_of_seriesPush found).sublist
      | error regressed => exact List.sublist_append_left _ _
    have whole := (ih later).trans (step.append_right rest)
    rwa [List.append_assoc, List.singleton_append] at whole

/-- **A series as long as what was pushed into it holds all of that**, whatever the cutoffs have come to. -/
theorem seriesOfferAll_whole {retention : Int} {capacity : Nat} {series : Series} {calls : List Point}
    (filled : seriesOfferAll b (Series.new retention capacity) calls = .ok series)
    (whole : series.size = calls.length) : series.points.toList = calls := by
  have kept : series.points.toList.Sublist calls := sublist_of_seriesOfferAll filled
  exact kept.eq_of_length whole

/-! ## Histories of strengths -/

/-- The series of a key, an empty one if it has none yet. -/
def seriesAt (h : StrengthHistory) (key : StrengthKey) : Series :=
  h.series.getD key (Series.new h.retention seriesCapacity)

section Record

variable {h : StrengthHistory} {ts : Int}

theorem recordOne_eq {key : StrengthKey} (fits : fitsSigned (ts - (seriesAt h key).retention) = true)
    (b : Build) (percent : Float) :
    recordOne b h ts key percent = .ok (h.recordOne ts key percent) := by
  have pushed := seriesPush_eq (p := ⟨ts, percent⟩) fits b
  rw [seriesAt] at pushed
  rw [recordOne, pushed, ok_bind, StrengthHistory.recordOne]
  cases (h.series.getD key (Series.new h.retention seriesCapacity)).push ⟨ts, percent⟩ <;> rfl

/-- A sample leaves all series kept for as long as they were. -/
theorem retention_recordOne (h : StrengthHistory) (ts : Int) (key : StrengthKey) (percent : Float)
    (other : StrengthKey) :
    (seriesAt (h.recordOne ts key percent).1 other).retention = (seriesAt h other).retention := by
  unfold StrengthHistory.recordOne
  cases pushed : (h.series.getD key (Series.new h.retention seriesCapacity)).push ⟨ts, percent⟩ with
  | error regressed => rfl
  | ok grown =>
    dsimp only
    rw [seriesAt, Std.ExtTreeMap.getD_insert]
    split
    · rename_i same
      rw [retention_push pushed, ← Std.compare_eq_iff_eq.1 same, seriesAt]
    · rfl

theorem record_eq (fits : ∀ key, fitsSigned (ts - (seriesAt h key).retention) = true) (b : Build)
    (strengths : Strengths) : record b h ts strengths = .ok (h.record ts strengths) := by
  unfold record StrengthHistory.record
  generalize StrengthHistory.samples strengths = samples
  generalize (0 : Nat) = taken
  induction samples generalizing h taken with
  | nil => rfl
  | cons sample rest ih =>
    obtain ⟨key, percent⟩ := sample
    rw [List.foldlM_cons, List.foldl_cons]
    dsimp only
    rw [recordOne_eq (fits key)]
    exact ih (fun key => by rw [retention_recordOne]; exact fits key) _

end Record

theorem recordOne_ends (h : StrengthHistory) (ts : Int) (key : StrengthKey) (percent : Float) :
    Ends b (recordOne b h ts key percent) := by
  refine (seriesPush_ends _ _).bind fun pushed _ => ?_
  cases pushed <;> exact .ok _

theorem record_ends (h : StrengthHistory) (ts : Int) (strengths : Strengths) :
    Ends b (record b h ts strengths) :=
  Ends.foldlM (fun _ _ _ => (recordOne_ends _ _ _ _).bind fun _ _ => .ok _) _

end FxPulse.Checked
