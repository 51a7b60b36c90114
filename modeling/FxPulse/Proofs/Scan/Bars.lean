import FxPulse.Proofs.History.Search
import FxPulse.Scan.Basic

/-!
# `Proofs/Scan/Bars.lean` — bars that can be scanned

What `Scan.validate` lets through, without the pass that finds it out: every price is a finite number
greater than zero, and every bar is after the one before it. From the second part comes all that a scan
needs to know about time: the order of places *is* the order of times.
-/

set_option autoImplicit false

namespace FxPulse

/-- Each bar is after the ones before it. -/
def Bar.Ascending (bars : List Bar) : Prop := bars.Pairwise fun a b => a.ts < b.ts

/-- A bar whose prices are prices. -/
def Bar.Sound (bar : Bar) : Prop := ∀ p ∈ bar.prices, p.isFinite = true ∧ ¬ p ≤ 0.0

namespace Scan

theorem defect?_eq_none_iff {previous : Option Bar} {bar : Bar} :
    defect? previous bar = none ↔ bar.Sound ∧ ∀ p ∈ previous, p.ts < bar.ts := by
  have prices : (bar.prices.any fun p => !p.isFinite || decide (p ≤ 0.0)) = false ↔ bar.Sound := by
    rw [List.any_eq_false]
    simp only [Bar.Sound, Bool.or_eq_true, Bool.not_eq_true', decide_eq_true_eq, not_or,
      Bool.not_eq_false]
  unfold defect?
  split
  · rename_i bad
    rw [← prices, bad]
    simp
  · rename_i good
    rw [← prices]
    simp only [Bool.not_eq_true] at good
    cases previous with
    | none => simp [good]
    | some p =>
      by_cases late : bar.ts ≤ p.ts
      · simp [late]
      · simp [good, late]
        omega

theorem validateFrom_eq_ok_iff {symbol : String} {i : Nat} {previous : Option Bar} {bars : List Bar} :
    validateFrom symbol i previous bars = .ok ()
      ↔ (∀ bar ∈ bars, bar.Sound) ∧ Bar.Ascending bars ∧
        ∀ p ∈ previous, ∀ bar ∈ bars, p.ts < bar.ts := by
  induction bars generalizing i previous with
  | nil => simp [validateFrom, Bar.Ascending]
  | cons bar rest ih =>
    unfold validateFrom
    cases found : defect? previous bar with
    | some defect =>
      have refused : ¬ defect? previous bar = none := by simp [found]
      rw [defect?_eq_none_iff] at refused
      simp only [reduceCtorEq, false_iff]
      rintro ⟨sound, -, after⟩
      exact refused ⟨sound bar (by simp), fun p hp => after p hp bar (by simp)⟩
    | none =>
      obtain ⟨sound, after⟩ := defect?_eq_none_iff.1 found
      dsimp only
      rw [ih]
      constructor
      · rintro ⟨sounds, ascending, first⟩
        refine ⟨?_, ?_, ?_⟩
        · exact List.forall_mem_cons.2 ⟨sound, sounds⟩
        · exact List.pairwise_cons.2 ⟨first bar rfl, ascending⟩
        · intro p hp
          refine List.forall_mem_cons.2 ⟨after p hp, fun b hb => ?_⟩
          exact Int.lt_trans (after p hp) (first bar rfl b hb)
      · rintro ⟨sounds, ascending, -⟩
        obtain ⟨first, ascending⟩ := List.pairwise_cons.1 ascending
        refine ⟨(List.forall_mem_cons.1 sounds).2, ascending, ?_⟩
        intro p hp
        rw [← Option.some.inj hp]
        exact first

/-- **Bars that can be scanned** have sound prices and go forward in time. -/
theorem validate_eq_ok_iff {symbol : String} {bars : Array Bar} :
    validate symbol bars = .ok () ↔ (∀ bar ∈ bars.toList, bar.Sound) ∧ Bar.Ascending bars.toList := by
  simp [validate, validateFrom_eq_ok_iff]

theorem defect?_eq_some_iff {previous : Option Bar} {bar : Bar} {defect : BarDefect}
    (after : ∀ p ∈ previous, p.ts < bar.ts) :
    defect? previous bar = some defect ↔ ¬ bar.Sound ∧ defect = .badPrices bar.prices := by
  by_cases sound : bar.Sound
  · rw [defect?_eq_none_iff.2 ⟨sound, after⟩]
    simp [sound]
  · have found : defect? previous bar ≠ none := fun none => sound (defect?_eq_none_iff.1 none).1
    unfold defect? at found ⊢
    split
    · simp [sound, eq_comm]
    · -- Nothing else can be wrong with a bar that is after the one before it.
      rename_i good
      rw [if_neg good] at found
      cases previous with
      | none => exact absurd rfl found
      | some p => exact absurd (if_neg (Int.not_le.2 (after p rfl))) found

section Cons

variable {symbol : String} {i : Nat} {previous : Option Bar} {bar : Bar} {rest : List Bar}

theorem validateFrom_cons_of_some {defect : BarDefect} (found : defect? previous bar = some defect) :
    validateFrom symbol i previous (bar :: rest) = .error (.scanAborted symbol i defect) := by
  rw [validateFrom, found]

theorem validateFrom_cons_of_none (found : defect? previous bar = none) :
    validateFrom symbol i previous (bar :: rest) = validateFrom symbol (i + 1) (some bar) rest := by
  rw [validateFrom, found]

end Cons

/-- The first bar that something is wrong with is refused. -/
theorem validateFrom_eq_error_iff {symbol : String} {i : Nat} {previous : Option Bar} {bars : List Bar}
    {cause : Failure} :
    validateFrom symbol i previous bars = .error cause ↔ ∃ front bar back defect,
      bars = front ++ bar :: back ∧ validateFrom symbol i previous front = .ok () ∧
      defect? (front.getLast?.or previous) bar = some defect ∧
      cause = .scanAborted symbol (i + front.length) defect := by
  induction bars generalizing i previous with
  | nil => simp [validateFrom]
  | cons bar rest ih =>
    cases found : defect? previous bar with
    | some defect =>
      rw [validateFrom_cons_of_some found]
      constructor
      · intro refused
        exact ⟨[], bar, rest, defect, rfl, rfl, found, (Except.error.inj refused).symm⟩
      · rintro ⟨_ | ⟨b, front⟩, bad, back, other, split, valid, wrong, rfl⟩
        · obtain ⟨rfl, rfl⟩ := List.cons.inj split
          rw [Option.some_inj.1 (found.symm.trans wrong)]
          rfl
        · obtain ⟨rfl, -⟩ := List.cons.inj split
          rw [validateFrom_cons_of_some found] at valid
          cases valid
    | none =>
      rw [validateFrom_cons_of_none found, ih]
      -- Whatever comes next, `bar` stands before it.
      have before : ∀ front : List Bar,
          (bar :: front).getLast?.or previous = front.getLast?.or (some bar) := by
        intro front
        rw [List.getLast?_cons, Option.some_or]
        cases front.getLast? <;> rfl
      constructor
      · rintro ⟨front, bad, back, defect, rfl, valid, wrong, rfl⟩
        refine ⟨bar :: front, bad, back, defect, rfl, ?_, (before front).symm ▸ wrong, ?_⟩
        · rwa [validateFrom_cons_of_none found]
        · rw [List.length_cons, Nat.add_right_comm, Nat.add_assoc]
      · rintro ⟨_ | ⟨b, front⟩, bad, back, defect, split, valid, wrong, rfl⟩
        · obtain ⟨rfl, -⟩ := List.cons.inj split
          rw [List.getLast?_nil, Option.none_or, found] at wrong
          cases wrong
        · obtain ⟨rfl, rfl⟩ := List.cons.inj split
          rw [validateFrom_cons_of_none found] at valid
          rw [before] at wrong
          refine ⟨front, bad, back, defect, rfl, valid, wrong, ?_⟩
          rw [List.length_cons, Nat.add_right_comm, Nat.add_assoc]

/-- **Of bars that go forward in time only prices can be wrong**, and the first that are are named. -/
theorem validate_eq_error_iff {symbol : String} {bars : List Bar} {cause : Failure}
    (ascending : Bar.Ascending bars) :
    validate symbol bars.toArray = .error cause ↔ ∃ front bar back, bars = front ++ bar :: back ∧
      (∀ b ∈ front, b.Sound) ∧ ¬ bar.Sound ∧
      cause = .scanAborted symbol front.length (.badPrices bar.prices) := by
  have parts : ∀ {front bar back}, bars = front ++ bar :: back →
      Bar.Ascending front ∧ ∀ p ∈ front.getLast?.or none, p.ts < bar.ts := by
    rintro front bar back rfl
    obtain ⟨earlier, -, across⟩ := List.pairwise_append.1 ascending
    refine ⟨earlier, fun p last => across p ?_ bar List.mem_cons_self⟩
    rw [Option.or_none] at last
    exact List.mem_of_getLast? last
  rw [validate, validateFrom_eq_error_iff]
  simp only [Nat.zero_add]
  constructor
  · rintro ⟨front, bar, back, defect, split, valid, wrong, rfl⟩
    obtain ⟨bad, rfl⟩ := (defect?_eq_some_iff (parts split).2).1 wrong
    exact ⟨front, bar, back, split, (validateFrom_eq_ok_iff.1 valid).1, bad, rfl⟩
  · rintro ⟨front, bar, back, split, sound, bad, rfl⟩
    obtain ⟨earlier, after⟩ := parts split
    exact ⟨front, bar, back, _, split, validateFrom_eq_ok_iff.2 ⟨sound, earlier, nofun⟩,
      (defect?_eq_some_iff after).2 ⟨bad, rfl⟩, rfl⟩

end Scan

/-! ## Places and times -/

namespace Bar

@[simp] theorem closing_ts (bar : Bar) : bar.closing.ts = bar.ts := rfl

@[simp] theorem closing_value (bar : Bar) : bar.closing.value = bar.close := rfl

theorem getElem?_closings {bars : Array Bar} {i : Nat} (hi : i < bars.size) :
    (bars.map Bar.closing)[i]? = some bars[i].closing := by
  rw [Array.getElem?_map, Array.getElem?_eq_getElem hi, Option.map_some]

section

variable {bars : Array Bar} (ascending : Ascending bars.toList)
include ascending

theorem Ascending.lt {i j : Nat} (hij : i < j) (hj : j < bars.size) : bars[i].ts < bars[j].ts := by
  have := List.pairwise_iff_getElem.1 ascending i j (by simp; omega) (by simpa using hj) hij
  simpa using this

/-- Later bars stand at later places, and only they. -/
theorem Ascending.lt_iff {i j : Nat} (hi : i < bars.size) (hj : j < bars.size) :
    bars[i].ts < bars[j].ts ↔ i < j := by
  constructor
  · intro h
    rcases Nat.lt_trichotomy i j with lt | rfl | gt
    · exact lt
    · exact absurd h (Int.lt_irrefl _)
    · have := ascending.lt gt hi
      omega
  · intro h
    exact ascending.lt h hj

/-- The closes of bars that go forward are in order of time. -/
theorem Ascending.closings : Point.Ordered (bars.map Bar.closing).toList := by
  rw [Array.toList_map, Point.Ordered, List.pairwise_map]
  exact ascending.imp fun h => Int.le_of_lt h

end

end Bar

end FxPulse
