import FxPulse.Checked.Matching
import FxPulse.Proofs.Checked.Bursts
import FxPulse.Proofs.Checked.Points
import FxPulse.Proofs.Checked.States
import FxPulse.Proofs.Edge.Attempts
import FxPulse.Proofs.Edge.Live
import FxPulse.Proofs.Table.Index

/-!
# `Proofs/Checked/Matching.lean` — matching in words

What triggers see at the end of a series is looked up by time, and a look-up is safe for any time, so a
window of the wrong length does no harm to the program. Two things have to be seen to: the state that is
matched is proper, and the index of the table leads to its rows, as that of a table made of rows does.

> Matching comes to an end in any store (`matchEdge_ends`), and where words hold what is computed, to the
> end it should (`matchEdge_completes`).
-/

set_option autoImplicit false

namespace FxPulse

open FxPulse.Number

theorem Point.mem_of_covering? {points : Array Point} {ts : Int} {p : Point}
    (found : covering? points ts = some p) : p ∈ points := by
  have before := (Option.filter_eq_some_iff.1 found).1
  unfold atOrBefore? at before
  exact Array.mem_of_getElem? before

/-- Words hold all that is computed at the end of a series. -/
def EdgeSettings.FitsAt (s : EdgeSettings) (series : Series) : Prop :=
  ∀ current, series.latest? = some current → ∀ t ∈ s.triggers, t.Fits s.gap series.points current

namespace Checked

variable {b : Build}

/-! ## Rows -/

theorem mapM_element {α : Type} {xs : Array α} {places : List Nat}
    (inside : ∀ place ∈ places, place < xs.size) :
    places.mapM (element xs) = .ok (places.filterMap fun place => xs[place]?) := by
  induction places with
  | nil => rfl
  | cons place rest ih =>
    obtain ⟨first, later⟩ := List.forall_mem_cons.1 inside
    rw [List.mapM_cons, element_eq first, ok_bind, ih later,
      List.filterMap_cons_some (Array.getElem?_eq_getElem first)]
    rfl

/-- **The index of a table made of rows leads to its rows.** -/
theorem candidates_eq (rows : List Row) (slot : Slot) :
    candidates (Table.ofRows rows) slot = .ok ((Table.ofRows rows).candidates slot) := by
  refine mapM_element fun place mem => ?_
  obtain ⟨r, held, -⟩ := Table.mem_places_iff.1 mem
  rw [Table.ofRows, List.size_toArray]
  exact (List.getElem?_eq_some_iff.1 held).1

theorem attemptsOf_eq (rows : List Row) (symbol : String) (levels : List StateKey) (burst : Burst) :
    attemptsOf (Table.ofRows rows) symbol levels burst
      = .ok (levels.map (Attempt.of (Table.ofRows rows) symbol burst)) := by
  rw [attemptsOf, candidates_eq]
  rfl

/-! ## Bursts -/

theorem liveBurst_ends (s : EdgeSettings) (points : Array Point) (pip : Float) (current : Point)
    (trigger : Trigger) : Ends b (liveBurst b s points pip current trigger) := by
  refine (target_ends _ _).bind fun ts _ => ?_
  rw [covering_eq, ok_bind]
  cases Point.covering? points ts with
  | none => exact .ok _
  | some reference => exact between_ends _ _ _ _ _

theorem firedBy_ends (s : EdgeSettings) (series : Series) (pip : Float) :
    Ends b (firedBy b s series pip) := by
  unfold firedBy
  split
  · exact (Ends.mapM fun trigger _ => liveBurst_ends _ _ _ _ _).bind fun _ _ => .ok _
  · exact .ok _

theorem firedBy_eq {s : EdgeSettings} {series : Series} (fits : s.FitsAt series) (b : Build)
    (pip : Float) : firedBy b s series pip = .ok (FxPulse.firedBy s series pip) := by
  rw [firedBy, FxPulse.firedBy]
  cases newest : series.latest? with
  | none => rfl
  | some current =>
    have bursts := mapM_eq_ok (ε := Halt) (l := s.triggers)
      (f := liveBurst b s series.points pip current)
      (g := fun trigger => do
        let reference ← series.covering? (current.ts - trigger.window)
        Burst.between? current reference pip s.gap trigger)
      fun trigger mem => by
        have own := fits current newest trigger mem
        rw [liveBurst, target_eq own, ok_bind, covering_eq, ok_bind, Series.covering?]
        cases found : Point.covering? series.points (current.ts - trigger.window) with
        | none => rfl
        | some reference => exact between_eq own (Point.mem_of_covering? found) pip
    dsimp only
    rw [bursts, ok_bind, List.filterMap_map]
    rfl

/-! ## Matching -/

section Match

variable {s : EdgeSettings} (proper : s.state.Proper) (counted : s.state.Fits)
include proper counted

/-- **Matching comes to an end in any store**, with a proper state and a table made of rows. -/
theorem matchEdge_ends (store : TickStore) (rows : List Row) (instrument : String) :
    Ends b (matchEdge b s store (Table.ofRows rows) instrument) := by
  rw [matchEdge, pip_eq, ok_bind, lookback_eq counted, ok_bind]
  cases store.read? instrument with
  | none => exact .ok _
  | some series =>
    refine (firedBy_ends _ _ _).bind fun bursts _ => ?_
    split
    · exact .ok _
    · obtain ⟨state, computed, -⟩ := compute_completes proper counted b
        (recentMinuteCloses series.points s.state.lookback).toArray
      dsimp only
      rw [computed, ok_bind, levels_eq, ok_bind]
      exact (Ends.mapM fun burst _ => .of_eq (attemptsOf_eq rows _ _ burst)).bind fun _ _ => .ok _

/-- **Matching comes to the same in words** where words hold what is computed at the end of the series. -/
theorem matchEdge_completes {store : TickStore} {instrument : String}
    (fits : ∀ series, store.read? instrument = some series → s.FitsAt series) (b : Build)
    (rows : List Row) :
    Completes (matchEdge b s store (Table.ofRows rows) instrument)
      (FxPulse.matchEdge s store (Table.ofRows rows) instrument) := by
  rw [matchEdge, pip_eq, ok_bind, lookback_eq counted, ok_bind]
  cases held : store.read? instrument with
  | none =>
    refine .of_eq rfl ?_
    rw [FxPulse.matchEdge, held]
  | some series =>
    dsimp only
    rw [firedBy_eq (fits series held), ok_bind]
    cases fires : FxPulse.firedBy s series (s.pips.pip instrument) with
    | nil => exact .of_eq rfl (matchEdge_silent held fires)
    | cons first rest =>
      obtain ⟨state, computed, hstate⟩ := compute_completes proper counted b
        (recentMinuteCloses series.points s.state.lookback).toArray
      have attempts := mapM_eq_ok (ε := Halt) (l := first :: rest)
        fun burst _ => attemptsOf_eq rows instrument state.levels burst
      refine .of_eq ?_ (matchEdge_eq held fires hstate)
      rw [if_neg (by simp), computed, ok_bind, levels_eq, ok_bind, attempts, ok_bind, attempts_eq,
        List.flatMap_def]
      rfl

end Match

end Checked

end FxPulse
