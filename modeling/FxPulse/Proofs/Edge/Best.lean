import FxPulse.Edge.Match
import Mathlib.Order.Bounds.Basic

/-!
# `Proofs/Edge/Best.lean` — the best of some rows

At one level of the state, live matching lets rows compete: more cases win, then the greater
probability, and of rows that tie in both the later one. `best?` walks over the rows once and keeps the
better of two. Said without the walk,

> the best row beats every row behind it and is no worse than any row in front of it (`best?_isBest`).

That singles out a row *and* a place: two rows that are equal in all they have still stand at two places
of a table. The second thing that matching asks of rows is the greatest number of cases among them,
which is gathered attempt by attempt; gathered or taken at once, it is the same (`mergeTotals_append`).
-/

set_option autoImplicit false

namespace FxPulse

open FxPulse.Number

namespace Row

/-- Less are rows with fewer cases; with equally many, those with the lesser probability. -/
def weigh : Row → Row → Ordering :=
  compareLex (compareOn (·.counts.total)) (compareOn (·.probability.key))

instance : Std.TransCmp weigh := inferInstanceAs (Std.TransCmp (compareLex _ _))

theorem weigh_self (r : Row) : (weigh r r).isLE = true := by
  have same : weigh r r = .eq := Std.ReflCmp.compare_self
  rw [same]
  rfl

theorem weigh_of_total_lt {a b : Row} (h : a.counts.total < b.counts.total) : weigh a b = .lt := by
  have fewer : compare a.counts.total b.counts.total = .lt := Nat.compare_eq_lt.2 h
  show (compare a.counts.total b.counts.total).then _ = .lt
  rw [fewer]
  rfl

/-- Among the rows that count, this is the best one, and of those that tie with it the last. -/
def IsBest (among : Row → Prop) (rows : List Row) (best : Row) : Prop :=
  ∃ front back, rows = front ++ best :: back ∧ among best ∧
    (∀ r ∈ front, among r → (weigh r best).isLE = true) ∧ ∀ r ∈ back, among r → weigh r best = .lt

theorem IsBest.counted {among : Row → Prop} {rows : List Row} {best : Row}
    (h : IsBest among rows best) : among best := by
  obtain ⟨front, back, split, own, before, after⟩ := h
  exact own

/-- More rows may count if they are all less. -/
theorem IsBest.widen {among wider : Row → Prop} {rows : List Row} {best : Row}
    (h : IsBest among rows best) (held : wider best)
    (less : ∀ r ∈ rows, wider r → ¬ among r → weigh r best = .lt) : IsBest wider rows best := by
  obtain ⟨front, back, rfl, -, before, after⟩ := h
  refine ⟨front, back, rfl, held, ?_, ?_⟩
  · intro r hr counted
    by_cases already : among r
    · exact before r hr already
    · have below := less r (List.mem_append_left _ hr) counted already
      rw [below]
      rfl
  · intro r hr counted
    by_cases already : among r
    · exact after r hr already
    · exact less r (List.mem_append_right _ (List.mem_cons_of_mem _ hr)) counted already

end Row

open Row (weigh weigh_self IsBest)

/-! ## The walk -/

theorem better_eq (a b : Row) : better a b = if (weigh a b).isLE then b else a := rfl

/-- The invariant of the walk: the row it ends with is the best of the row it began with and those it
went over. -/
theorem foldl_better_isBest (row : Row) (rest : List Row) :
    IsBest (fun _ => True) (row :: rest) (rest.foldl better row) := by
  induction rest generalizing row with
  | nil => exact ⟨[], [], rfl, trivial, by simp, by simp⟩
  | cons next rest ih =>
    rw [List.foldl_cons, better_eq]
    by_cases rises : (weigh row next).isLE = true
    · -- The walk goes on with the new row, and the old one is no better than what comes of that.
      rw [if_pos rises]
      obtain ⟨front, back, split, -, before, after⟩ := ih next
      have reached : (weigh next (rest.foldl better next)).isLE = true := by
        cases front with
        | nil => exact (List.cons.inj split).1 ▸ weigh_self next
        | cons first others =>
          exact before next ((List.cons.inj split).1 ▸ List.mem_cons_self) trivial
      refine ⟨row :: front, back, congrArg (row :: ·) split, trivial, ?_, after⟩
      refine List.forall_mem_cons.2 ⟨fun _ => ?_, before⟩
      exact Std.TransCmp.isLE_trans rises reached
    · -- The walk goes on with the old row, and the new one is less than what comes of that.
      rw [if_neg rises]
      have falls : weigh next row = .lt := Std.OrientedCmp.lt_of_not_isLE rises
      obtain ⟨front, back, split, -, before, after⟩ := ih row
      cases front with
      | nil =>
        obtain ⟨same, rfl⟩ := List.cons.inj split
        refine ⟨[], next :: rest, by rw [← same]; rfl, trivial, by simp, ?_⟩
        exact List.forall_mem_cons.2 ⟨fun _ => same ▸ falls, after⟩
      | cons first others =>
        obtain ⟨rfl, later⟩ := List.cons.inj split
        obtain ⟨own, before⟩ := List.forall_mem_cons.1 before
        refine ⟨row :: next :: others, back, congrArg (row :: next :: ·) later, trivial, ?_, after⟩
        refine List.forall_mem_cons.2 ⟨own, List.forall_mem_cons.2 ⟨fun _ => ?_, before⟩⟩
        rw [Std.TransCmp.lt_of_lt_of_isLE falls (own trivial)]
        rfl

/-- **The best of those rows that pass a test** is the best among them in the list of all. -/
theorem best?_isBest {test : Row → Bool} {rows : List Row} {best : Row}
    (h : best? (rows.filter test) = some best) : IsBest (fun r => test r = true) rows best := by
  cases kept : rows.filter test with
  | nil =>
    rw [kept] at h
    cases h
  | cons row rest =>
    rw [kept] at h
    obtain rfl := Option.some.inj h
    obtain ⟨front, back, split, -, before, after⟩ := foldl_better_isBest row rest
    obtain ⟨early, late, rfl, hfront, hlate⟩ := List.filter_eq_append_iff.1 (kept.trans split)
    obtain ⟨skipped, others, rfl, fails, passes, hback⟩ := List.filter_eq_cons_iff.1 hlate
    refine ⟨early ++ skipped, others, by rw [List.append_assoc], passes, ?_, ?_⟩
    · intro r hr counted
      rcases List.mem_append.1 hr with hr | hr
      · exact before r (hfront ▸ List.mem_filter.2 ⟨hr, counted⟩) trivial
      · exact absurd counted (fails r hr)
    · intro r hr counted
      exact after r (hback ▸ List.mem_filter.2 ⟨hr, counted⟩) trivial

/-! ## Totals -/

theorem greatestTotal?_eq_none_iff {rows : List Row} : greatestTotal? rows = none ↔ rows = [] := by
  rw [greatestTotal?, List.max?_eq_none_iff, List.map_eq_nil_iff]

theorem greatestTotal?_eq_some_iff {rows : List Row} {n : Nat} :
    greatestTotal? rows = some n ↔ IsGreatest {m | ∃ r ∈ rows, r.counts.total = m} n := by
  rw [greatestTotal?, List.max?_eq_some_iff, List.mem_map]
  refine and_congr Iff.rfl ?_
  simp only [upperBounds, List.forall_mem_map, Set.mem_ofPred_eq, forall_exists_index, and_imp,
    forall_apply_eq_imp_iff₂]

/-- The greatest total of some rows and of others, merged, is that of all of them. -/
theorem mergeTotals_append (rows others : List Row) :
    mergeTotals (greatestTotal? rows) (greatestTotal? others) = greatestTotal? (rows ++ others) := by
  cases first : greatestTotal? rows with
  | none =>
    rw [greatestTotal?_eq_none_iff.1 first, List.nil_append]
    rfl
  | some m =>
    cases second : greatestTotal? others with
    | none =>
      rw [greatestTotal?_eq_none_iff.1 second, List.append_nil, first]
      rfl
    | some n =>
      obtain ⟨⟨r, hr, rfl⟩, above⟩ := greatestTotal?_eq_some_iff.1 first
      obtain ⟨⟨q, hq, rfl⟩, above'⟩ := greatestTotal?_eq_some_iff.1 second
      refine (greatestTotal?_eq_some_iff.2 ⟨?_, ?_⟩).symm
      · rcases Nat.le_total r.counts.total q.counts.total with le | le
        · exact ⟨q, List.mem_append_right _ hq, (Nat.max_eq_right le).symm⟩
        · exact ⟨r, List.mem_append_left _ hr, (Nat.max_eq_left le).symm⟩
      · rintro _ ⟨x, hx, rfl⟩
        rcases List.mem_append.1 hx with hx | hx
        · exact Nat.le_trans (above ⟨x, hx, rfl⟩) (Nat.le_max_left _ _)
        · exact Nat.le_trans (above' ⟨x, hx, rfl⟩) (Nat.le_max_right _ _)

end FxPulse
