import FxPulse.Proofs.Edge.Best
import FxPulse.Proofs.State.Levels
import FxPulse.Proofs.State.Lookback

/-!
# `Proofs/Edge/Attempts.lean` — one attempt after the other

Live matching is one walk over a list of attempts: a burst at a level of the state, burst by burst and
for each burst level by level. An attempt either has a winner, and then that is the match, or it only
raises the greatest total met so far. So

> attempts without a winner can be skipped, as long as their rows are remembered (`settle_append`).

What the walk remembers is a number; here it is always the greatest total of *some rows*, those it has
met, which is what makes it more than a number.
-/

set_option autoImplicit false

namespace FxPulse

theorem exists_best {rows : List Row} (h : rows ≠ []) : ∃ row, best? rows = some row := by
  cases rows with
  | nil => exact absurd rfl h
  | cons row rest => exact ⟨_, rfl⟩

namespace Attempt

theorem exists_winner {a : Attempt} {minTotal : Nat} {row : Row} (held : row ∈ a.rows)
    (enough : minTotal ≤ row.counts.total) : ∃ best, a.winner? minTotal = some best :=
  exists_best (List.ne_nil_of_mem (List.mem_filter.2 ⟨held, decide_eq_true enough⟩))

theorem winner?_eq_none {a : Attempt} {minTotal : Nat}
    (few : ∀ r ∈ a.rows, ¬ minTotal ≤ r.counts.total) : a.winner? minTotal = none := by
  have nothing : (a.rows.filter fun r => minTotal ≤ r.counts.total) = [] := by
    rw [List.filter_eq_nil_iff]
    intro r hr
    simpa using few r hr
  rw [winner?, nothing]
  rfl

/-- The attempt for a burst at a level. -/
def of (table : Table) (symbol : String) (b : Burst) (level : StateKey) : Attempt :=
  ⟨b, level, eligible (table.candidates ⟨symbol, b.trigger.label, b.direction⟩) level⟩

end Attempt

/-! ## The list of attempts -/

theorem attempts_eq (table : Table) (symbol : String) (state : StateKey) (bursts : List Burst) :
    attempts table symbol state bursts
      = bursts.flatMap fun b => state.levels.map (Attempt.of table symbol b) := rfl

/-- The first attempt is made for the first burst, in the state itself. -/
theorem attempts_cons (table : Table) (symbol : String) (state : StateKey) (burst : Burst)
    (rest : List Burst) :
    ∃ later, attempts table symbol state (burst :: rest)
      = ⟨burst, state,
          eligible (table.candidates ⟨symbol, burst.trigger.label, burst.direction⟩) state⟩
        :: later := by
  obtain ⟨coarser, levels⟩ := StateKey.levels_eq_cons state
  rw [attempts, List.flatMap_cons, levels, List.map_cons, List.cons_append]
  exact ⟨_, rfl⟩

/-- Before a burst at a level come the attempts for the bursts before it, and those for the burst itself
at the levels before. -/
theorem attempts_split (table : Table) (symbol : String) {state level : StateKey}
    (earlier later : List Burst) (b : Burst) {longer shorter : List StateKey}
    (levels : state.levels = longer ++ level :: shorter) :
    ∃ behind, attempts table symbol state (earlier ++ b :: later)
      = (attempts table symbol state earlier ++ longer.map (Attempt.of table symbol b))
        ++ Attempt.of table symbol b level :: behind := by
  refine ⟨shorter.map (Attempt.of table symbol b) ++ attempts table symbol state later, ?_⟩
  simp only [attempts_eq, List.flatMap_append, List.flatMap_cons, levels, List.map_append,
    List.map_cons, List.append_assoc, List.cons_append]

/-! ## The walk -/

section Walk

variable {minTotal : Nat} {state : StateKey}

theorem settle_cons {bestTotal : Option Nat} {first : Attempt} {later : List Attempt} {row : Row}
    (wins : first.winner? minTotal = some row) :
    settle minTotal state bestTotal (first :: later)
      = .matched ⟨first.burst.trigger.label, first.burst.direction, first.burst.movePips, state,
          first.level == state, row⟩ := by
  rw [settle, wins]

/-- Attempts without a winner leave behind the rows they had. -/
theorem settle_append (met : List Row) {vain : List Attempt} (later : List Attempt)
    (losing : ∀ a ∈ vain, a.winner? minTotal = none) :
    settle minTotal state (greatestTotal? met) (vain ++ later)
      = settle minTotal state (greatestTotal? (met ++ vain.flatMap (·.rows))) later := by
  -- What the walk remembers is, at each step, the greatest total of the rows met by then.
  induction vain generalizing met with
  | nil => rw [List.flatMap_nil, List.append_nil, List.nil_append]
  | cons a vain ih =>
    obtain ⟨first, losing⟩ := List.forall_mem_cons.1 losing
    rw [List.cons_append, settle, first]
    dsimp only
    rw [mergeTotals_append, ih _ losing, List.flatMap_cons, List.append_assoc]

/-- When no attempt has a winner, the answer tells whether there was a row at all. -/
theorem settle_losing {all : List Attempt} (losing : ∀ a ∈ all, a.winner? minTotal = none) :
    settle minTotal state none all
      = .noMatch (match greatestTotal? (all.flatMap (·.rows)) with
        | some total => .insufficientSample total
        | none => .noRows) := by
  have walked : settle minTotal state none (all ++ []) = _ := settle_append [] [] losing
  rw [List.append_nil, List.nil_append] at walked
  refine walked.trans ?_
  cases greatestTotal? (all.flatMap (·.rows)) <;> rfl

end Walk

/-! ## Matching -/

section Match

variable {e : EdgeSettings} {store : TickStore} {table : Table} {symbol : String} {series : Series}
  (held : store.read? symbol = some series)
include held

theorem matchEdge_silent (silent : firedBy e series (e.pips.pip symbol) = []) :
    matchEdge e store table symbol = .ok (.noMatch .noTrigger) := by
  rw [matchEdge, held]
  dsimp only
  rw [silent]

theorem matchEdge_eq {b : Burst} {rest : List Burst} {state : StateKey}
    (fires : firedBy e series (e.pips.pip symbol) = b :: rest)
    (hstate : e.state.compute (recentMinuteCloses series.points e.state.lookback).toArray = .ok state) :
    matchEdge e store table symbol
      = .ok (settle e.minTotal state none (attempts table symbol state (b :: rest))) := by
  rw [matchEdge, held]
  dsimp only
  rw [fires]
  dsimp only
  rw [hstate]
  rfl

end Match

theorem exists_matchEdge {e : EdgeSettings} (proper : e.state.Proper) (store : TickStore)
    (table : Table) (symbol : String) : ∃ answer, matchEdge e store table symbol = .ok answer := by
  cases held : store.read? symbol with
  | none =>
    rw [matchEdge, held]
    exact ⟨_, rfl⟩
  | some series =>
    cases fired : firedBy e series (e.pips.pip symbol) with
    | nil => exact ⟨_, matchEdge_silent held fired⟩
    | cons b rest =>
      obtain ⟨state, hstate⟩ :=
        proper.exists_compute (recentMinuteCloses series.points e.state.lookback).toArray
      exact ⟨_, matchEdge_eq held fired hstate⟩

end FxPulse
