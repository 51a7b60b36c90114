import FxPulse.Market.Changes
import Mathlib.Data.List.Induction
import Mathlib.Data.List.Nodup

/-!
# `Proofs/Market/Changes.lean` — one entry for each label

A table of changes finds the first entry with a label and passes over any other. So it says all that it
holds only if each label comes up once, and whatever is entered with `insert` keeps it so:

> percentages of different labels, entered one by one, are the table, in the order in which they came
> (`toList_foldl_insert`).
-/

set_option autoImplicit false

namespace FxPulse.Changes

/-- Each label comes up once. -/
def Distinct (c : Changes) : Prop := (c.toList.map (·.label)).Nodup

instance (c : Changes) : Decidable c.Distinct := inferInstanceAs (Decidable (List.Nodup _))

theorem labels_replaceFirst (label : String) (percent : Float) (changes : List Change) :
    (replaceFirst label percent changes).map (·.label) = changes.map (·.label) := by
  induction changes with
  | nil => rfl
  | cons change rest ih =>
    rw [replaceFirst]
    by_cases own : change.label = label
    · rw [if_pos (beq_iff_eq.2 own), List.map_cons, List.map_cons, own]
    · rw [if_neg (mt beq_iff_eq.1 own), List.map_cons, List.map_cons, ih]

theorem Distinct.insert {c : Changes} (distinct : c.Distinct) (label : String) (percent : Float) :
    (c.insert label percent).Distinct := by
  unfold Changes.insert Distinct
  split
  · rw [labels_replaceFirst]
    exact distinct
  · rename_i absent
    have new : label ∉ c.toList.map (·.label) := by simpa using absent
    rw [List.map_append, List.map_singleton, List.nodup_append]
    exact ⟨distinct, List.pairwise_singleton _ _, fun own mem other only =>
      List.mem_singleton.1 only ▸ ne_of_mem_of_not_mem mem new⟩

/-- Where labels are distinct, a look-up finds all there is. -/
theorem Distinct.get?_eq_some_iff {c : Changes} (distinct : c.Distinct) {label : String}
    {percent : Float} : c.get? label = some percent ↔ ⟨label, percent⟩ ∈ c.toList := by
  obtain ⟨changes⟩ := c
  unfold Distinct at distinct
  unfold get?
  dsimp only at distinct ⊢
  induction changes with
  | nil => simp
  | cons change rest ih =>
    obtain ⟨apart, later⟩ := List.nodup_cons.1 distinct
    rw [List.find?_cons, List.mem_cons]
    by_cases own : change.label = label
    · subst own
      have elsewhere : ⟨change.label, percent⟩ ∉ rest := fun mem =>
        apart (List.mem_map.2 ⟨_, mem, rfl⟩)
      rw [beq_self_eq_true, or_iff_left elsewhere]
      cases change
      simp [eq_comm]
    · have other : ⟨label, percent⟩ ≠ change := fun same => own (same ▸ rfl)
      rw [beq_eq_false_iff_ne.2 own, or_iff_right other]
      exact ih later

/-- Where labels are distinct, the percentages of a label are the one that is found, or none. -/
theorem Distinct.filter_label {c : Changes} (distinct : c.Distinct) (label : String) :
    (c.toList.filter fun change => change.label == label).map (·.percent)
      = (c.get? label).toList := by
  obtain ⟨changes⟩ := c
  unfold Distinct at distinct
  unfold get?
  dsimp only at distinct ⊢
  induction changes with
  | nil => rfl
  | cons change rest ih =>
    obtain ⟨apart, later⟩ := List.nodup_cons.1 distinct
    by_cases own : change.label = label
    · have elsewhere : rest.filter (fun other => other.label == label) = [] := by
        rw [List.filter_eq_nil_iff]
        intro other mem same
        exact apart (List.mem_map.2 ⟨other, mem, (eq_of_beq same).trans own.symm⟩)
      simp [own, elsewhere]
    · simp [own, ih later]

/-! ## Entering -/

/-- A label that is not there yet goes to the end. -/
theorem toList_insert_of_not_mem {c : Changes} {label : String}
    (new : label ∉ c.toList.map (·.label)) (percent : Float) :
    (c.insert label percent).toList = c.toList ++ [⟨label, percent⟩] := by
  have absent : ¬ (c.toList.any fun change => change.label == label) = true := by simpa using new
  rw [insert, if_neg absent]

/-- **Percentages of different labels are kept as they come.** -/
theorem toList_foldl_insert {α : Type} (label : α → String) (percent : α → Float) {l : List α}
    (distinct : (l.map label).Nodup) :
    (l.foldl (fun c a => c.insert (label a) (percent a)) (∅ : Changes)).toList
      = l.map fun a => ⟨label a, percent a⟩ := by
  induction l using List.reverseRecOn with
  | nil => rfl
  | append_singleton front a ih =>
    rw [List.map_append, List.nodup_append] at distinct
    obtain ⟨before, -, apart⟩ := distinct
    have new : label a ∉ front.map label := fun mem => apart _ mem _ List.mem_cons_self rfl
    have kept := ih before
    rw [List.foldl_append, List.foldl_cons, List.foldl_nil, toList_insert_of_not_mem, kept,
      List.map_append, List.map_singleton]
    rw [kept, List.map_map]
    exact new

end FxPulse.Changes
