import FxPulse.Api.Response
import FxPulse.Proofs.Number.Ranked

/-!
# `Proofs/Table/Ranking.lean` — the best rows of a table

What is asked of a table are its best rows: those of one symbol, with enough cases, and not too many of them.
They are sorted first and picked afterwards, and neither step may disturb what the other one does.

> The ranking has all rows of the table, none of them behind a row that it outranks, and rows that tie stand as
> they stand in the table (`ranked_isRanking`).

Of a ranking, what passes a test and the first few of that are still in order of rank, so the rows that are left
out for want of room outrank none of those that are shown. Whether a symbol has rows at all is another question
than whether there are any to show.
-/

set_option autoImplicit false

namespace FxPulse

open FxPulse.Number

namespace Row

/-- The row has the greater probability, or the same and more cases. -/
def Outranks (a b : Row) : Prop :=
  Ranked.order b.probability a.probability = .lt ∨
    b.probability = a.probability ∧ b.counts.total < a.counts.total

/-- The rows are equal in all that a ranking looks at. -/
def Ties (a b : Row) : Prop := a.probability = b.probability ∧ a.counts.total = b.counts.total

instance : DecidableRel Ties := fun a b =>
  inferInstanceAs (Decidable (a.probability = b.probability ∧ a.counts.total = b.counts.total))

theorem ranking_eq_lt_iff {a b : Row} : ranking a b = .lt ↔ a.Outranks b := by
  rw [ranking, Ordering.then_eq_lt, Ranked.order_eq_iff, Nat.compare_eq_lt]
  exact Iff.rfl

theorem ranking_eq_eq_iff {a b : Row} : ranking a b = .eq ↔ a.Ties b := by
  rw [ranking, Ordering.then_eq_eq, Ranked.order_eq_iff, Nat.compare_eq_eq]
  exact and_congr eq_comm eq_comm

/-- What is ranked first is compared as greatest. -/
def standing : Row → Row → Ordering :=
  compareLex (compareOn (·.probability.key)) (compareOn (·.counts.total))

instance : Std.TransCmp standing := inferInstanceAs (Std.TransCmp (compareLex _ _))

instance : Std.TransCmp ranking := inferInstanceAs (Std.TransCmp fun a b => standing b a)

theorem ranking_isLE_iff {a b : Row} : (ranking a b).isLE = true ↔ ¬ b.Outranks a := by
  rw [← ranking_eq_lt_iff, ← Std.OrientedCmp.gt_iff_lt, Ordering.isLE_iff_ne_gt]

/-- Among probabilities that are numbers the greater one counts, and what is no number stands above them all. -/
theorem outranks_of_float {a b : Row} {x y : Float} (ha : a.probability = x) (hb : b.probability = y)
    (h : y < x ∨ x.isNaN = true ∧ y.isNaN = false) : a.Outranks b := by
  refine .inl ?_
  rw [ha, hb]
  rcases h with less | ⟨undefined, number⟩
  · exact Ranked.order_of_lt less
  · exact Ranked.order_of_isNaN number undefined

theorem not_outranks_self (r : Row) : ¬ r.Outranks r := by
  rw [← ranking_isLE_iff, ranking_eq_eq_iff.2 ⟨rfl, rfl⟩]
  rfl

end Row

namespace Table

/-! ## The ranking -/

/-- One list ranks the rows of another: it has the same rows, a row stands before all that it outranks, and rows
that tie with each other keep their order. -/
structure IsRanking (rows ranked : List Row) : Prop where
  perm : ranked.Perm rows
  before : ∀ (i j : Nat) (a b : Row),
    ranked[i]? = some a → ranked[j]? = some b → a.Outranks b → i < j
  stable : ∀ r : Row, (ranked.filter fun a => r.Ties a) = rows.filter fun a => r.Ties a

theorem ranking_trans (a b c : Row) (first : (a.ranking b).isLE = true)
    (second : (b.ranking c).isLE = true) : (a.ranking c).isLE = true :=
  Std.TransCmp.isLE_trans first second

theorem ranking_total (a b : Row) : ((a.ranking b).isLE || (b.ranking a).isLE) = true := by
  have swapped : b.ranking a = (a.ranking b).swap := Std.OrientedCmp.eq_swap
  rw [swapped]
  cases a.ranking b <;> rfl

/-- No row is outranked by one behind it. -/
theorem pairwise_ranked (t : Table) : t.ranked.Pairwise fun a b => ¬ b.Outranks a :=
  (List.pairwise_mergeSort ranking_trans ranking_total _).imp Row.ranking_isLE_iff.1

/-- Sorting a list is stable for every part of it that is in order, and rows that tie are in any order. -/
theorem filter_ties_ranked (t : Table) (r : Row) :
    (t.ranked.filter fun a => r.Ties a) = t.rows.toList.filter fun a => r.Ties a := by
  have tied : (t.rows.toList.filter fun a => r.Ties a).Pairwise fun a b => (a.ranking b).isLE = true := by
    refine List.pairwise_of_forall_mem_list fun a ha b hb => ?_
    obtain ⟨rate, total⟩ : r.Ties a := by simpa using List.of_mem_filter ha
    obtain ⟨rate', total'⟩ : r.Ties b := by simpa using List.of_mem_filter hb
    rw [Row.ranking_eq_eq_iff.2 ⟨rate.symm.trans rate', total.symm.trans total'⟩]
    rfl
  have kept := (List.sublist_mergeSort ranking_trans ranking_total tied List.filter_sublist).filter
    fun a => decide (r.Ties a)
  rw [List.filter_filter] at kept
  simp only [Bool.and_self] at kept
  exact (kept.eq_of_length ((List.mergeSort_perm _ _).filter _).length_eq.symm).symm

/-- **A table is ranked by probability, then by the number of cases, and otherwise left as it is.** -/
theorem ranked_isRanking (t : Table) : IsRanking t.rows.toList t.ranked where
  perm := List.mergeSort_perm _ _
  before i j a b first second outranks := by
    obtain ⟨hi, rfl⟩ := List.getElem?_eq_some_iff.1 first
    obtain ⟨hj, rfl⟩ := List.getElem?_eq_some_iff.1 second
    rcases Nat.lt_trichotomy i j with ahead | same | behind
    · exact ahead
    · subst same
      exact absurd outranks (Row.not_outranks_self _)
    · exact absurd outranks (List.pairwise_iff_getElem.1 t.pairwise_ranked j i hj hi behind)
  stable := t.filter_ties_ranked

/-! ## What is shown of it -/

/-- The row is of the symbol and has enough cases. -/
def Asked (symbol : String) (q : TableQuery) (r : Row) : Prop :=
  r.symbol = symbol ∧ q.minTotal.getD 0 ≤ r.counts.total

instance (symbol : String) (q : TableQuery) : DecidablePred (Asked symbol q) := fun r =>
  inferInstanceAs (Decidable (r.symbol = symbol ∧ q.minTotal.getD 0 ≤ r.counts.total))

theorem best_eq (t : Table) (symbol : String) (q : TableQuery) :
    t.best symbol q = (t.ranked.filter fun r => Asked symbol q r).take (q.limit.getD 100) := by
  rw [best, defaultLimit]
  congr 1
  refine List.filter_congr fun r _ => ?_
  rw [Bool.eq_iff_iff, Bool.and_eq_true, beq_iff_eq, decide_eq_true_iff, decide_eq_true_iff]
  exact Iff.rfl

theorem forSymbol_eq_nil_iff {t : Table} {symbol : String} :
    t.forSymbol symbol = [] ↔ ∀ r ∈ t.rows.toList, r.symbol ≠ symbol := by
  simp [forSymbol, List.filter_eq_nil_iff]

/-- A symbol without rows has none to show. -/
theorem best_eq_nil {t : Table} {symbol : String} (none : t.forSymbol symbol = []) (q : TableQuery) :
    t.best symbol q = [] := by
  rw [best_eq, List.filter_eq_nil_iff.2, List.take_nil]
  intro r mem asked
  have held : r ∈ t.rows.toList := (List.mergeSort_perm _ _).mem_iff.1 mem
  exact forSymbol_eq_nil_iff.1 none r held (of_decide_eq_true asked).1

/-- Rows may as well be gathered first: only if there are none, it matters whether the symbol has any. -/
theorem query_eq_gathered (t : Table) (symbol : String) (q : TableQuery) :
    t.query symbol q = if t.best symbol q = [] ∧ t.forSymbol symbol = [] then
      .error (.notAvailable (.rows symbol)) else .ok (t.best symbol q) := by
  rw [query]
  by_cases none : t.forSymbol symbol = []
  · rw [if_pos (List.isEmpty_iff.2 none), if_pos ⟨best_eq_nil none q, none⟩]
  · rw [if_neg (mt List.isEmpty_iff.1 none), if_neg fun both => none both.2]

/-- **The rows that are left out** outrank none of those that are shown, and together they are all the rows that
have been asked for. -/
theorem shown_omitted (t : Table) (symbol : String) (q : TableQuery) :
    ∃ omitted, (t.best symbol q ++ omitted).Perm (t.rows.toList.filter fun r => Asked symbol q r) ∧
      ∀ a ∈ t.best symbol q, ∀ b ∈ omitted, ¬ b.Outranks a := by
  refine ⟨(t.ranked.filter fun r => Asked symbol q r).drop (q.limit.getD 100), ?_, ?_⟩
  · rw [best_eq, List.take_append_drop]
    exact t.ranked_isRanking.perm.filter _
  · have order := t.pairwise_ranked.filter fun r => Asked symbol q r
    rw [← List.take_append_drop (q.limit.getD 100) (t.ranked.filter _), ← best_eq,
      List.pairwise_append] at order
    exact order.2.2

end Table

namespace Engine

theorem respond_table_of_none {e : Engine} {symbol : String} (none : e.table.forSymbol symbol = [])
    (q : TableQuery) : e.respond (.table symbol q)
      = .ok ⟨404, .text ("Not available: no probability rows for " ++ symbol)⟩ := by
  rw [respond, tableJson, Table.query, if_pos (List.isEmpty_iff.2 none)]
  rfl

theorem respond_table_of_some {e : Engine} {symbol : String} (some_row : e.table.forSymbol symbol ≠ [])
    (q : TableQuery) : e.respond (.table symbol q)
      = .ok ⟨200, .json (.array ((e.table.best symbol q).map Row.toDetailedJson))⟩ := by
  rw [respond, tableJson, Table.query, if_neg (mt List.isEmpty_iff.1 some_row)]
  rfl

/-- **The best rows of a symbol.** The table is ranked by probability, numbers by their size, then by the number of
cases, and otherwise left in order. If no row is of the symbol, and only then, the answer is that there is nothing;
else it is the first rows of the ranking that are of the symbol and have enough cases, as many as the limit, which
is 100 if none is given, and perhaps none at all. What else is of the symbol and has enough cases outranks none of
these. -/
theorem respond_table_best (e : Engine) (symbol : String) (q : TableQuery) :
    let rows := e.table.rows.toList
    let ranked := e.table.ranked
    let shown := (ranked.filter fun r => Table.Asked symbol q r).take (q.limit.getD 100)
    Table.IsRanking rows ranked ∧
    (∀ (i j : Nat) (a b : Row) (x y : Float), ranked[i]? = some a → ranked[j]? = some b →
      a.probability = x → b.probability = y → y < x ∨ x.isNaN = true ∧ y.isNaN = false → i < j) ∧
    ((∃ body, e.respond (.table symbol q) = .ok ⟨404, body⟩) ↔ ∀ r ∈ rows, r.symbol ≠ symbol) ∧
    ((∃ r ∈ rows, r.symbol = symbol) →
      e.respond (.table symbol q) = .ok ⟨200, .json (.array (shown.map Row.toDetailedJson))⟩) ∧
    (e.table.query symbol q = if shown = [] ∧ e.table.forSymbol symbol = [] then
      .error (.notAvailable (.rows symbol)) else .ok shown) ∧
    ∃ omitted, (shown ++ omitted).Perm (rows.filter fun r => Table.Asked symbol q r) ∧
      ∀ a ∈ shown, ∀ b ∈ omitted, ¬ b.Outranks a := by
  intro rows ranked shown
  have ranking := e.table.ranked_isRanking
  have best : e.table.best symbol q = shown := e.table.best_eq symbol q
  have absent : e.table.forSymbol symbol = [] ↔ ∀ r ∈ rows, r.symbol ≠ symbol := Table.forSymbol_eq_nil_iff
  refine ⟨ranking, ?_, ?_, ?_, ?_, ?_⟩
  · intro i j a b x y first second ha hb h
    exact ranking.before i j a b first second (Row.outranks_of_float ha hb h)
  · rw [← absent]
    constructor
    · rintro ⟨body, missing⟩
      by_contra some_row
      rw [respond_table_of_some some_row] at missing
      cases missing
    · exact fun none => ⟨_, respond_table_of_none none q⟩
  · rintro ⟨r, mem, own⟩
    rw [respond_table_of_some (fun none => absent.1 none r mem own), best]
  · rw [← best]
    exact e.table.query_eq_gathered symbol q
  · rw [← best]
    exact e.table.shown_omitted symbol q

end Engine

end FxPulse
