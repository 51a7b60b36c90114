import FxPulse.Scan.Tally

/-!
# `Proofs/Scan/Tally.lean` — a tally is a count

`Tally.addAll` enters cases one after the other. What stands in a tally afterwards does not depend on
how they came: under each key the number of its cases and the number of its successes, and no key
without a case.
-/

set_option autoImplicit false

namespace FxPulse

/-- Whether the case counts for a key, and its success is as wanted. -/
def Sample.isFor (want : Bool → Bool) (key : RowKey) (s : Sample) : Bool :=
  s.key == key && want s.success

/-- The keys differ in nothing but the state. -/
def RowKey.SameEvent (a b : RowKey) : Prop :=
  a.trigger = b.trigger ∧ a.outcome = b.outcome ∧ a.direction = b.direction

instance (a b : RowKey) : Decidable (a.SameEvent b) :=
  inferInstanceAs (Decidable (a.trigger = b.trigger ∧ a.outcome = b.outcome ∧ a.direction = b.direction))

namespace Sample

/-- The sample, counted for each of some states in place of its own. -/
def onLevels (x : Sample) (levels : List StateKey) : List Sample :=
  levels.map fun level => ⟨{ x.key with state := level }, x.success⟩

theorem isFor_onLevel (want : Bool → Bool) (key : RowKey) (x : Sample) (level : StateKey) :
    isFor want key ⟨{ x.key with state := level }, x.success⟩ = true
      ↔ key.SameEvent x.key ∧ level = key.state ∧ want x.success = true := by
  obtain ⟨t, o, d, state⟩ := key
  simp only [isFor, RowKey.SameEvent, Bool.and_eq_true, beq_iff_eq, RowKey.mk.injEq]
  constructor
  · rintro ⟨⟨rfl, rfl, rfl, rfl⟩, wanted⟩
    exact ⟨⟨rfl, rfl, rfl⟩, rfl, wanted⟩
  · rintro ⟨⟨rfl, rfl, rfl⟩, rfl, wanted⟩
    exact ⟨⟨rfl, rfl, rfl, rfl⟩, wanted⟩

/-- On levels that come up once, a sample is for a key once or not at all. -/
theorem countP_onLevels (want : Bool → Bool) (key : RowKey) (x : Sample) {levels : List StateKey}
    (nodup : levels.Nodup) :
    (x.onLevels levels).countP (isFor want key)
      = if key.SameEvent x.key ∧ key.state ∈ levels ∧ want x.success = true then 1 else 0 := by
  rw [onLevels, List.countP_map]
  by_cases named : key.SameEvent x.key ∧ want x.success = true
  · have picks : (isFor want key ∘ fun level => ⟨{ x.key with state := level }, x.success⟩)
        = fun level => level == key.state := by
      funext level
      rw [Bool.eq_iff_iff, Function.comp_apply, isFor_onLevel, beq_iff_eq]
      exact ⟨fun h => h.2.1, fun h => ⟨named.1, h, named.2⟩⟩
    rw [picks, ← List.count, nodup.count]
    by_cases listed : key.state ∈ levels
    · rw [if_pos listed, if_pos ⟨named.1, listed, named.2⟩]
    · rw [if_neg listed, if_neg fun h => listed h.2.1]
  · rw [if_neg fun h => named ⟨h.1, h.2.2⟩, List.countP_eq_zero]
    intro level _
    rw [Function.comp_apply, isFor_onLevel]
    exact fun h => named ⟨h.1, h.2.2⟩

end Sample

namespace Tally

/-- What has been counted for a key, nothing for a key that has not come up. -/
def counts (t : Tally) (key : RowKey) : Counts := t.getD key ⟨0, 0⟩

theorem counts_empty (key : RowKey) : counts ∅ key = ⟨0, 0⟩ := by
  simp [counts]

theorem counts_add (t : Tally) (s : Sample) (key : RowKey) :
    counts (t.add s) key = if s.key = key then (t.counts key).add s.success else t.counts key := by
  unfold counts add
  rw [Std.ExtTreeMap.getD_insert]
  by_cases same : s.key = key
  · simp [same]
  · have apart : ¬ compare s.key key = .eq := fun h => same (Std.LawfulEqOrd.eq_of_compare h)
    rw [if_neg apart, if_neg same]

theorem mem_add {t : Tally} {s : Sample} {key : RowKey} :
    key ∈ t.add s ↔ s.key = key ∨ key ∈ t := by
  rw [add, Std.ExtTreeMap.mem_insert, Std.compare_eq_iff_eq]

/-- **A tally counts cases, and among them successes.** -/
theorem counts_addAll (t : Tally) (samples : List Sample) (key : RowKey) :
    (t.addAll samples).counts key
      = ⟨(t.counts key).successes + samples.countP (Sample.isFor id key),
          (t.counts key).total + samples.countP (Sample.isFor (fun _ => true) key)⟩ := by
  induction samples generalizing t with
  | nil => simp [addAll]
  | cons s rest ih =>
    rw [addAll, List.foldl_cons, ← addAll, ih, counts_add, List.countP_cons, List.countP_cons]
    by_cases same : s.key = key
    · cases met : s.success with
      | true =>
        simp only [same, met, if_true, Counts.add, Sample.isFor, beq_self_eq_true, id_eq,
          Bool.and_self, Counts.mk.injEq]
        omega
      | false =>
        simp only [same, met, if_true, Counts.add, Sample.isFor, beq_self_eq_true, id_eq,
          Bool.and_false, Bool.and_self, Bool.false_eq_true, if_false, Counts.mk.injEq]
        omega
    · simp [same, Sample.isFor]

theorem counts_addAll_empty (samples : List Sample) (key : RowKey) :
    counts (addAll ∅ samples) key
      = ⟨samples.countP (Sample.isFor id key), samples.countP (Sample.isFor (fun _ => true) key)⟩ := by
  simp [counts_addAll, counts_empty]

theorem mem_addAll {t : Tally} {samples : List Sample} {key : RowKey} :
    key ∈ t.addAll samples ↔ key ∈ t ∨ ∃ s ∈ samples, s.key = key := by
  induction samples generalizing t with
  | nil => simp [addAll]
  | cons s rest ih =>
    rw [addAll, List.foldl_cons, ← addAll, ih, mem_add]
    simp only [List.mem_cons, exists_eq_or_imp]
    constructor
    · rintro ((here | there) | later)
      · exact Or.inr (Or.inl here)
      · exact Or.inl there
      · exact Or.inr (Or.inr later)
    · rintro (there | here | later)
      · exact Or.inl (Or.inr there)
      · exact Or.inl (Or.inl here)
      · exact Or.inr later

/-- A key is entered with its first case, so one without a case is not there. -/
theorem mem_addAll_empty {samples : List Sample} {key : RowKey} :
    key ∈ addAll ∅ samples ↔ 1 ≤ (counts (addAll ∅ samples) key).total := by
  rw [mem_addAll, counts_addAll_empty]
  dsimp only
  rw [Nat.one_le_iff_ne_zero, ← Nat.pos_iff_ne_zero, List.countP_pos_iff]
  simp [Sample.isFor]

theorem one_le_total {samples : List Sample} {key : RowKey} {c : Counts}
    (held : (addAll ∅ samples)[key]? = some c) : 1 ≤ c.total := by
  have own : counts (addAll ∅ samples) key = c := by
    rw [counts, Std.ExtTreeMap.getD_eq_getD_getElem?, held, Option.getD_some]
  exact own ▸ mem_addAll_empty.1 (Std.ExtTreeMap.mem_iff_isSome_getElem?.2 (by rw [held]; rfl))

/-- A key that has come up stands in the list of a tally with the number of its cases. -/
theorem exists_mem_toList {samples : List Sample} {sample : Sample} (h : sample ∈ samples) :
    ∃ counts, (sample.key, counts) ∈ (addAll ∅ samples).toList ∧ 1 ≤ counts.total := by
  have entered : sample.key ∈ addAll ∅ samples := mem_addAll.2 (Or.inr ⟨sample, h, rfl⟩)
  refine ⟨counts (addAll ∅ samples) sample.key, ?_, mem_addAll_empty.1 entered⟩
  rw [Std.ExtTreeMap.mem_toList_iff_getElem?_eq_some, counts, Std.ExtTreeMap.getD_eq_getD_getElem?,
    Std.ExtTreeMap.getElem?_eq_some_getElem entered, Option.getD_some]

end Tally

end FxPulse
