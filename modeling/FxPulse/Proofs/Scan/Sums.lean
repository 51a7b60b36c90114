import Mathlib.Algebra.BigOperators.Group.Finset.Sigma
import Mathlib.Algebra.BigOperators.Intervals
import Mathlib.Data.Set.Card
import FxPulse.Proofs.Scan.Cases

/-!
# `Proofs/Scan/Sums.lean` — counting by places

A scan makes lists and counts in them; the theory speaks of the *number* of cases with a property. The
bridge is a sum of zeros and ones over places: over bars, triggers and outcomes. This file turns both
sides into such sums.

The list side is not only a change of notation. Triggers that do not fire and outcomes that cannot be
judged have left the lists before anything is counted, so an entry's place in a list is no longer the
place of its trigger. `sum_filterMap` is where places are given back.
-/

set_option autoImplicit false

namespace FxPulse.Scan

/-- The number of things with a property, as a sum over any finite set that holds them all. -/
theorem ncard_eq_sum {α : Type} {P : α → Prop} [DecidablePred P] (s : Finset α)
    (held : ∀ a, P a → a ∈ s) : {a | P a}.ncard = ∑ a ∈ s, if P a then 1 else 0 := by
  have same : {a | P a} = ↑(s.filter P) := by
    ext a
    simp only [Set.mem_ofPred_eq, Finset.coe_filter]
    exact ⟨fun h => ⟨held a h, h⟩, fun h => h.2⟩
  rw [same, Set.ncard_coe_finset, Finset.card_filter]

/-- A case is three places. -/
def Case.equiv : Nat × Nat × Nat ≃ Case where
  toFun p := ⟨p.1, p.2.1, p.2.2⟩
  invFun c := (c.bar, c.trigger, c.outcome)
  left_inv _ := rfl
  right_inv _ := rfl

theorem mem_cases {m n o : Nat} {c : Case} (h : c.bar < m ∧ c.trigger < n ∧ c.outcome < o) :
    c ∈ (Finset.range m ×ˢ Finset.range n ×ˢ Finset.range o).map Case.equiv.toEmbedding := by
  obtain ⟨bar, trigger, outcome⟩ := h
  exact Finset.mem_map.2 ⟨(c.bar, c.trigger, c.outcome), by simp [bar, trigger, outcome], rfl⟩

/-- The number of cases with a property, place by place. -/
theorem ncard_cases {P : Case → Prop} [DecidablePred P] {m n o : Nat}
    (bounded : ∀ c, P c → c.bar < m ∧ c.trigger < n ∧ c.outcome < o) :
    {c | P c}.ncard = ∑ i ∈ Finset.range m, ∑ k ∈ Finset.range n, ∑ l ∈ Finset.range o,
      if P ⟨i, k, l⟩ then 1 else 0 := by
  have held := fun c hc => mem_cases (bounded c hc)
  rw [ncard_eq_sum _ held, Finset.sum_map, Finset.sum_product]
  refine Finset.sum_congr rfl fun i _ => ?_
  rw [Finset.sum_product]
  rfl

/-! ## Sums over places of a list -/

theorem sum_map_eq {α : Type} (l : List α) (g : α → Nat) :
    (l.map g).sum = ∑ k ∈ Finset.range l.length, (l[k]?.map g).getD 0 := by
  induction l with
  | nil => rfl
  | cons a rest ih =>
    rw [List.map_cons, List.sum_cons, ih, List.length_cons, Finset.sum_range_succ', Nat.add_comm]
    rfl

theorem sum_filterMap {α β : Type} (l : List α) (f : α → Option β) (g : β → Nat) :
    ((l.filterMap f).map g).sum
      = ∑ k ∈ Finset.range l.length, ((l[k]?.bind f).map g).getD 0 := by
  have kept : ((l.filterMap f).map g).sum = (l.map fun a => ((f a).map g).getD 0).sum := by
    induction l with
    | nil => rfl
    | cons a rest ih =>
      cases h : f a with
      | none => simp [h, ih]
      | some b => simp [h, ih]
  rw [kept, sum_map_eq]
  refine Finset.sum_congr rfl fun k _ => ?_
  cases l[k]? <;> rfl

theorem countP_flatMap_filterMap {α β γ : Type} (q : γ → Bool) (l : List α) (f : α → Option β)
    (h : β → List γ) :
    ((l.filterMap f).flatMap h).countP q
      = ∑ k ∈ Finset.range l.length, ((l[k]?.bind f).map fun b => (h b).countP q).getD 0 := by
  rw [List.countP_flatMap, ← sum_filterMap]
  rfl

/-! ## The samples of a bar -/

/-- The samples of one burst and one outcome: one for each level. -/
def levelSamples (b : Burst) (o : Outcome) (levels : List StateKey) (success : Bool) : List Sample :=
  levels.map fun level => ⟨⟨b.trigger.label, o.label, b.direction, level⟩, success⟩

/-- Of the samples of one burst and one outcome, one is for a key, or none: levels come up once. -/
theorem countP_levelSamples (want : Bool → Bool) (key : RowKey) (b : Burst) (o : Outcome)
    {levels : List StateKey} (nodup : levels.Nodup) (success : Bool) :
    (levelSamples b o levels success).countP (Sample.isFor want key)
      = if (key.trigger = b.trigger.label ∧ key.outcome = o.label ∧ key.direction = b.direction) ∧
          key.state ∈ levels ∧ want success = true then 1 else 0 :=
  Sample.countP_onLevels want key ⟨⟨b.trigger.label, o.label, b.direction, ∅⟩, success⟩ nodup

theorem samplesOf_eq (b : Burst) (close pip : Float) (levels : List StateKey) (outcomes : List Outcome)
    (extremes : Outcome → Option Extremes) :
    samplesOf b close pip levels (outcomes.map fun o => (o, extremes o))
      = (outcomes.filterMap fun o => (extremes o).map fun e => (o, e)).flatMap fun (o, e) =>
          levelSamples b o levels (o.reachedBy (e.excursion close b.direction / pip)) := by
  unfold samplesOf
  induction outcomes with
  | nil => rfl
  | cons o rest ih =>
    rw [List.map_cons, List.flatMap_cons, ih]
    cases h : extremes o with
    | none => simp [h]
    | some e => simp [h, levelSamples]

section Bar

variable {s : ScanSettings} {bars : Array Bar} {pip : Float} {i : Nat} {state : StateKey}
  (hi : i < bars.size) (hstate : s.state.compute (closesUpTo bars i) = .ok state)
include hi hstate

open scoped Classical in
/-- A trigger that fires and an outcome give one sample for a key if their case counts for it, and no
sample otherwise. -/
theorem countP_outcomeSamples (want : Bool → Bool) (key : RowKey) {k l : Nat} {t : Trigger}
    {o : Outcome} {b : Burst} (ht : s.triggers[k]? = some t) (ho : s.outcomes[l]? = some o)
    (fires : Fires bars pip s.gap i t b) :
    ((extremes? bars i o).map fun e => (levelSamples b o (levelsOf s state)
        (o.reachedBy (e.excursion bars[i].close b.direction / pip))).countP
          (Sample.isFor want key)).getD 0
      = if Case.CountsFor s bars pip key ⟨i, k, l⟩ ∧
          want (decide (Case.Succeeds s bars pip key ⟨i, k, l⟩)) = true then 1 else 0 := by
  have counts : Case.CountsFor s bars pip key ⟨i, k, l⟩ ↔ _ :=
    Case.countsFor_iff ht ho fires hstate
  cases he : extremes? bars i o with
  | none =>
    refine (if_neg ?_).symm
    rintro ⟨counted, -⟩
    have judged := (extremes?_eq_some_iff hi).2 ⟨(counts.1 counted).1, rfl⟩
    simp [he] at judged
  | some e =>
    obtain ⟨judged, rfl⟩ := (extremes?_eq_some_iff hi).1 he
    rw [Option.map_some, Option.getD_some,
      countP_levelSamples want key b o (nodup_levelsOf s state)]
    refine if_congr ?_ rfl rfl
    rw [mem_levelsOf, counts, fires.trigger_eq]
    -- The sample succeeds when the case does, since the key has the direction of the burst.
    have success : key.direction = b.direction →
        decide (Case.Succeeds s bars pip key ⟨i, k, l⟩) = o.reachedBy ((Extremes.ofBars
          (within bars bars[i].ts (bars[i].ts + o.horizon))).excursion bars[i].close
            b.direction / pip) := by
      intro same
      rw [Bool.eq_iff_iff, decide_eq_true_iff, Case.succeeds_iff (c := ⟨i, k, l⟩) ho, same]
      exact ⟨fun ⟨_, reached⟩ => reached, fun reached => ⟨hi, reached⟩⟩
    constructor
    · rintro ⟨named, counted, wanted⟩
      exact ⟨⟨judged, named, counted⟩, by rwa [success named.2.2]⟩
    · rintro ⟨⟨-, named, counted⟩, wanted⟩
      exact ⟨named, counted, by rwa [success named.2.2] at wanted⟩

open scoped Classical in
/-- **The samples of a bar for a key** are as many as the triggers and outcomes whose case at the bar
counts for it. With `want` one counts all of them, or those that succeeded. -/
theorem countP_samplesAt (ascending : Bar.Ascending bars.toList) (want : Bool → Bool) (key : RowKey) :
    (samplesAt s bars pip i).countP (Sample.isFor want key)
      = ∑ k ∈ Finset.range s.triggers.length, ∑ l ∈ Finset.range s.outcomes.length,
          if Case.CountsFor s bars pip key ⟨i, k, l⟩ ∧
            want (decide (Case.Succeeds s bars pip key ⟨i, k, l⟩)) = true then 1 else 0 := by
  rw [samplesAt, Array.getElem?_eq_getElem hi, hstate]
  dsimp only
  rw [bursts, countP_flatMap_filterMap]
  refine Finset.sum_congr rfl fun k _ => ?_
  cases ht : s.triggers[k]? with
  | none =>
    refine (Finset.sum_eq_zero fun l _ => if_neg ?_).symm
    rintro ⟨⟨t, o, b, _, found, -⟩, -⟩
    simp [ht] at found
  | some t =>
    rw [Option.bind_some]
    cases hb : burst? s bars pip i t with
    | none =>
      refine (Finset.sum_eq_zero fun l _ => if_neg ?_).symm
      rintro ⟨⟨t', o, b, _, found, -, fires, -⟩, -⟩
      obtain rfl : t = t' := Option.some_inj.1 (ht.symm.trans found)
      have fired := (burst?_eq_some_iff ascending).2 fires
      simp [hb] at fired
    | some b =>
      have fires := (burst?_eq_some_iff ascending).1 hb
      rw [Option.map_some, Option.getD_some, samplesOf_eq, countP_flatMap_filterMap]
      refine Finset.sum_congr rfl fun l _ => ?_
      cases ho : s.outcomes[l]? with
      | none =>
        refine (if_neg ?_).symm
        rintro ⟨⟨t', o, _, _, -, found, -⟩, -⟩
        simp [ho] at found
      | some o =>
        rw [Option.bind_some, Option.map_map]
        exact countP_outcomeSamples hi hstate want key ht ho fires

end Bar

open scoped Classical in
/-- The bursts at a bar are as many as the triggers that fire there. -/
theorem length_bursts {s : ScanSettings} {bars : Array Bar} (ascending : Bar.Ascending bars.toList)
    (pip : Float) (i : Nat) :
    (bursts s bars pip i).length = ∑ k ∈ Finset.range s.triggers.length,
      if ∃ t b, s.triggers[k]? = some t ∧ Fires bars pip s.gap i t b then 1 else 0 := by
  have ones : (bursts s bars pip i).length = ((bursts s bars pip i).map fun _ => 1).sum := by simp
  rw [ones, bursts, sum_filterMap]
  refine Finset.sum_congr rfl fun k _ => ?_
  cases ht : s.triggers[k]? with
  | none => simp
  | some t =>
    rw [Option.bind_some]
    cases hb : burst? s bars pip i t with
    | none =>
      refine (if_neg ?_).symm
      rintro ⟨t', b, found, fires⟩
      obtain rfl : t = t' := Option.some_inj.1 found
      have fired := (burst?_eq_some_iff ascending).2 fires
      simp [hb] at fired
    | some b => exact (if_pos ⟨t, b, rfl, (burst?_eq_some_iff ascending).1 hb⟩).symm

end FxPulse.Scan
