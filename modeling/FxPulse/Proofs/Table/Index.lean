import FxPulse.Table.Basic
import Mathlib.Data.List.Basic

/-!
# `Proofs/Table/Index.lean` — the index of a table

An index is there to save a search, so it has to find what the search would find. The places entered
under a slot are those of its rows, in row order, and therefore

> the candidates of a slot are the rows of the table that have it.

Nothing that is proved about matching needs to know that there is an index. What a table keeps are places,
though, and a place may be entered twice, be forgotten, or lead nowhere: of a table made of rows, each place is
entered once, in the order of the rows and under the slot of its row (`mem_places_iff`, `pairwise_places`).
-/

set_option autoImplicit false

namespace FxPulse.Table

/-- What stands under a slot after some entries: what stood there, and the places of its rows. -/
theorem getD_foldl_enter (entries : List (Row × Nat)) (index : SlotIndex) (slot : Slot) :
    ((entries.foldl enter index).getD slot #[]).toList
      = (index.getD slot #[]).toList
          ++ (entries.filter fun e => e.1.slot == slot).map Prod.snd := by
  induction entries generalizing index with
  | nil => simp
  | cons e rest ih =>
    rw [List.foldl_cons, ih, enter, Std.ExtTreeMap.getD_insert]
    by_cases own : e.1.slot = slot
    · subst own
      simp
    · have apart : ¬ compare e.1.slot slot = .eq := fun h => own (Std.LawfulEqOrd.eq_of_compare h)
      rw [if_neg apart, List.filter_cons_of_neg (by simpa using own)]

/-! ## Places -/

/-- The places that are entered under a slot. -/
def places (t : Table) (slot : Slot) : List Nat := (t.index.getD slot #[]).toList

theorem places_ofRows (rows : List Row) (slot : Slot) :
    (ofRows rows).places slot = (rows.zipIdx.filter fun e => e.1.slot == slot).map Prod.snd := by
  rw [places, ofRows]
  dsimp only
  rw [getD_foldl_enter, Std.ExtTreeMap.getD_empty, List.nil_append]

/-- Under a slot stand the places of its rows, and no others. -/
theorem mem_places_iff {rows : List Row} {slot : Slot} {place : Nat} :
    place ∈ (ofRows rows).places slot ↔ ∃ r, rows[place]? = some r ∧ r.slot = slot := by
  simp only [places_ofRows, List.mem_map, List.mem_filter, List.mem_zipIdx_iff_getElem?, beq_iff_eq,
    Prod.exists, exists_eq_right]

/-- They stand in order, and each of them once. -/
theorem pairwise_places (rows : List Row) (slot : Slot) :
    ((ofRows rows).places slot).Pairwise (· < ·) := by
  have order : (rows.zipIdx.map Prod.snd).Pairwise (· < ·) := by
    rw [List.zipIdx_map_snd]
    exact List.pairwise_lt_range'
  rw [places_ofRows]
  exact order.sublist (List.filter_sublist.map Prod.snd)

/-! ## Candidates -/

/-- What is entered under a slot are its rows, each with its place. -/
theorem map_fst_entries (rows : List Row) (slot : Slot) :
    (rows.zipIdx.filter fun e => e.1.slot == slot).map Prod.fst = rows.filter fun r => r.slot == slot := by
  rw [← Function.comp_def (fun r : Row => r.slot == slot) Prod.fst, ← List.filter_map,
    List.zipIdx_map_fst]

/-- Its places lead to these rows. -/
theorem map_places (rows : List Row) (slot : Slot) :
    ((ofRows rows).places slot).map (rows[·]?) = (rows.filter fun r => r.slot == slot).map some := by
  rw [places_ofRows, ← map_fst_entries, List.map_map, List.map_map]
  refine List.map_congr_left fun e he => ?_
  exact List.mem_zipIdx_iff_getElem?.1 (List.mem_of_mem_filter he)

/-- **The candidates of a slot are its rows**, in the order of the table. -/
theorem candidates_ofRows (rows : List Row) (slot : Slot) :
    (ofRows rows).candidates slot = rows.filter fun r => r.slot == slot := by
  have looked_up : (ofRows rows).candidates slot
      = (((ofRows rows).places slot).map (rows[·]?)).filterMap id := by
    rw [List.filterMap_map]
    refine List.filterMap_congr fun place _ => ?_
    exact List.getElem?_toArray
  rw [looked_up, map_places, List.filterMap_map, Function.id_comp, List.filterMap_some]

/-- **The index finds what a search would find.** The candidates for a symbol, a trigger and a direction are the
rows with these three, in the order of the table and as often as they stand in it; the places behind them ascend,
each leads to its candidate, and a place is entered under no other slot than that of its row. -/
theorem candidates_searched (rows : List Row) :
    (∀ symbol trigger direction, (ofRows rows).candidates ⟨symbol, trigger, direction⟩
      = rows.filter fun r => r.symbol = symbol ∧ r.key.trigger = trigger ∧ r.key.direction = direction) ∧
    ∀ slot, ((ofRows rows).places slot).Pairwise (· < ·) ∧
      ((ofRows rows).places slot).map (rows[·]?) = ((ofRows rows).candidates slot).map some ∧
      ∀ place, place ∈ (ofRows rows).places slot ↔ ∃ r, rows[place]? = some r ∧ r.slot = slot := by
  refine ⟨?_, fun slot => ⟨pairwise_places rows slot, ?_, fun _ => mem_places_iff⟩⟩
  · intro symbol trigger direction
    rw [candidates_ofRows]
    refine List.filter_congr fun r _ => ?_
    rw [Bool.eq_iff_iff, beq_iff_eq, decide_eq_true_iff, Row.slot, Slot.mk.injEq]
  · rw [map_places, candidates_ofRows]

end FxPulse.Table
