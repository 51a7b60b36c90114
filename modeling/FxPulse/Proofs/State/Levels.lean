import FxPulse.State.Key

/-!
# `Proofs/State/Levels.lean` — a state and the coarser ones

`StateKey.levels` walks from a key down to the empty one. As a set, the levels of a key are the keys
whose parts begin the key's parts; as a list, they stand there from the longest to the shortest, each
of them once, the key itself first. Whoever counts by level needs the second, whoever looks one up the
first.
-/

set_option autoImplicit false

namespace FxPulse.StateKey

/-- A key that leaves out some of the last parts of another, or none of them. -/
def IsLevelOf (level key : StateKey) : Prop := level.parts <+: key.parts

theorem take_size_of_isLevelOf {level key : StateKey} (h : level.IsLevelOf key) :
    key.take level.size = level := by
  have same := List.prefix_iff_eq_take.1 h
  cases level
  exact congrArg StateKey.mk same.symm

theorem take_size (key : StateKey) : key.take key.size = key :=
  take_size_of_isLevelOf (List.prefix_refl key.parts)

theorem take_isLevelOf (key : StateKey) (n : Nat) : (key.take n).IsLevelOf key :=
  List.take_prefix n key.parts

/-- **The levels of a key are its beginnings.** -/
theorem mem_levels_iff {level key : StateKey} : level ∈ key.levels ↔ level.IsLevelOf key := by
  simp only [levels, List.mem_map, List.mem_reverse, List.mem_range]
  constructor
  · rintro ⟨n, -, rfl⟩
    exact take_isLevelOf key n
  · intro h
    have shorter : level.size ≤ key.size := h.length_le
    exact ⟨level.size, by omega, take_size_of_isLevelOf h⟩

/-- The walk goes from longer levels to shorter ones. -/
theorem pairwise_size_levels (key : StateKey) : key.levels.Pairwise fun a b => b.size < a.size := by
  have places : (List.range (key.size + 1)).reverse.Pairwise fun m n => n < m :=
    List.pairwise_reverse.2 List.pairwise_lt_range
  rw [levels, List.pairwise_map]
  refine List.Pairwise.imp_of_mem ?_ places
  intro m n hm hn shorter
  simp only [List.mem_reverse, List.mem_range, size] at hm hn
  simp only [size, take, List.length_take]
  omega

/-- No level comes up twice: the levels differ in size. -/
theorem nodup_levels (key : StateKey) : key.levels.Nodup := by
  rw [List.nodup_iff_pairwise_ne]
  refine (pairwise_size_levels key).imp ?_
  rintro a b shorter rfl
  exact Nat.lt_irrefl _ shorter

/-- The walk starts at the key itself. -/
theorem levels_eq_cons (key : StateKey) : ∃ coarser, key.levels = key :: coarser := by
  refine ⟨((List.range key.size).reverse).map key.take, ?_⟩
  rw [levels, List.range_succ, List.reverse_append, List.reverse_singleton, List.singleton_append,
    List.map_cons, take_size]

instance (level key : StateKey) : Decidable (level.IsLevelOf key) :=
  inferInstanceAs (Decidable (level.parts <+: key.parts))

/-- Above a level that is not the whole key there is one that is longer by one, and no other. -/
theorem countP_levels_finer {level key : StateKey} (shorter : level.size < key.size) :
    key.levels.countP (fun l => decide (l.size = level.size + 1 ∧ level.IsLevelOf l))
      = if level ∈ key.levels then 1 else 0 := by
  have next : (key.take (level.size + 1)).size = level.size + 1 := by
    simp only [size, take, List.length_take] at shorter ⊢
    omega
  by_cases below : level.IsLevelOf key
  · -- The level longer by one is the beginning of the key that long.
    have only : ∀ l ∈ key.levels,
        decide (l.size = level.size + 1 ∧ level.IsLevelOf l) = (l == key.take (level.size + 1)) := by
      intro l hl
      have part := mem_levels_iff.1 hl
      rw [Bool.eq_iff_iff, decide_eq_true_eq, beq_iff_eq]
      constructor
      · rintro ⟨size, -⟩
        rw [← size, take_size_of_isLevelOf part]
      · rintro rfl
        refine ⟨next, List.prefix_of_prefix_length_le below part ?_⟩
        exact Nat.le_of_succ_le (Nat.le_of_eq next.symm)
    rw [List.countP_congr fun l hl => by rw [only l hl], ← List.count, (nodup_levels key).count,
      if_pos (mem_levels_iff.2 (take_isLevelOf _ _)), if_pos (mem_levels_iff.2 below)]
  · rw [if_neg (mt mem_levels_iff.1 below), List.countP_eq_zero]
    intro l hl finer
    have part := mem_levels_iff.1 hl
    exact below ((of_decide_eq_true finer).2.trans part)

end FxPulse.StateKey
