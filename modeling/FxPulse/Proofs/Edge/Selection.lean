import FxPulse.Proofs.Edge.Attempts
import FxPulse.Proofs.Edge.Live
import FxPulse.Proofs.History.TickStore
import FxPulse.Proofs.Table.Index

/-!
# `Proofs/Edge/Selection.lean` — which row live matching selects

Three searches lie inside one another: over the bursts in order of priority, over the levels of the
state from the whole of it down, and over the rows of a level. Each of them goes on when it has found
nothing, or only rows with too few cases. Said without any of them:

> a match is made exactly when some eligible row has enough cases, and then with the best row of the
> longest level that has one, of the first burst that has one; if there is none, the answer is the
> greatest total among all eligible rows, or that there are no such rows.

What makes the second half delicate is that the greatest total is over *all* bursts and levels, also
those whose rows have been passed over for a reason that no longer matters.
-/

set_option autoImplicit false

namespace FxPulse

/-! ## Eligible rows -/

/-- The row is for the instrument, for the trigger and direction of the burst, and for the state. -/
def Row.EligibleFor (symbol : String) (b : Burst) (level : StateKey) (r : Row) : Prop :=
  r.symbol = symbol ∧ r.key.trigger = b.trigger.label ∧ r.key.direction = b.direction ∧
    r.key.state = level

/-- Some row for the burst at the level has enough cases. -/
def HasEnough (rows : List Row) (symbol : String) (minTotal : Nat) (b : Burst) (level : StateKey) :
    Prop :=
  ∃ r ∈ rows, r.EligibleFor symbol b level ∧ minTotal ≤ r.counts.total

/-- The totals of the rows for any of the bursts at any level of the state. -/
def eligibleTotals (rows : List Row) (symbol : String) (bursts : List Burst) (state : StateKey) :
    Set Nat :=
  {n | ∃ b ∈ bursts, ∃ level, level.IsLevelOf state ∧
    ∃ r ∈ rows, r.EligibleFor symbol b level ∧ r.counts.total = n}

/-- The reading is of the row it should be of: for this burst and this level. -/
structure EdgeReading.Selects (rows : List Row) (symbol : String) (minTotal : Nat)
    (bursts : List Burst) (state : StateKey) (b : Burst) (level : StateKey)
    (reading : EdgeReading) : Prop where
  /-- No burst before this one has a row with enough cases, at any level. -/
  first : ∃ earlier later, bursts = earlier ++ b :: later ∧
    ∀ other ∈ earlier, ∀ l, l.IsLevelOf state → ¬ HasEnough rows symbol minTotal other l
  isLevel : level.IsLevelOf state
  /-- Nor has this one, at a longer level. -/
  longest : ∀ l, l.IsLevelOf state → level.size < l.size → ¬ HasEnough rows symbol minTotal b l
  best : reading.row.IsBest (Row.EligibleFor symbol b level) rows
  enough : minTotal ≤ reading.row.counts.total
  exact_iff : reading.exact = true ↔ level = state
  trigger : reading.trigger = b.trigger.label
  direction : reading.direction = b.direction
  movePips : reading.movePips = b.movePips
  state : reading.state = state

/-! ## Rows of attempts -/

section Rows

variable {rows : List Row} {symbol : String}

/-- The test that an attempt puts to the rows of a table. -/
def isEligible (symbol : String) (b : Burst) (level : StateKey) (r : Row) : Bool :=
  r.key.state == level && r.slot == ⟨symbol, b.trigger.label, b.direction⟩

theorem isEligible_iff {b : Burst} {level : StateKey} {r : Row} :
    isEligible symbol b level r = true ↔ r.EligibleFor symbol b level := by
  simp only [isEligible, Row.slot, Row.EligibleFor, Bool.and_eq_true, beq_iff_eq, Slot.mk.injEq]
  constructor
  · rintro ⟨state, sym, trigger, direction⟩
    exact ⟨sym, trigger, direction, state⟩
  · rintro ⟨sym, trigger, direction, state⟩
    exact ⟨state, sym, trigger, direction⟩

theorem rows_of (b : Burst) (level : StateKey) :
    (Attempt.of (Table.ofRows rows) symbol b level).rows = rows.filter (isEligible symbol b level) := by
  show eligible ((Table.ofRows rows).candidates _) level = _
  rw [eligible, Table.candidates_ofRows, List.filter_filter]
  rfl

theorem mem_rows_of {b : Burst} {level : StateKey} {r : Row} :
    r ∈ (Attempt.of (Table.ofRows rows) symbol b level).rows
      ↔ r ∈ rows ∧ r.EligibleFor symbol b level := by
  rw [rows_of, List.mem_filter, isEligible_iff]

theorem winner?_of_not_hasEnough {minTotal : Nat} {b : Burst} {level : StateKey}
    (few : ¬ HasEnough rows symbol minTotal b level) :
    (Attempt.of (Table.ofRows rows) symbol b level).winner? minTotal = none := by
  refine Attempt.winner?_eq_none fun r hr enough => few ?_
  obtain ⟨listed, eligible⟩ := mem_rows_of.1 hr
  exact ⟨r, listed, eligible, enough⟩

/-- The winner of an attempt has enough cases and is the best of *all* rows of the attempt: those with
too few cases are less than any with enough. -/
theorem exists_winner_of {minTotal : Nat} {b : Burst} {level : StateKey}
    (enough : HasEnough rows symbol minTotal b level) :
    ∃ best, (Attempt.of (Table.ofRows rows) symbol b level).winner? minTotal = some best ∧
      minTotal ≤ best.counts.total ∧ best.IsBest (Row.EligibleFor symbol b level) rows := by
  obtain ⟨r, listed, eligible, total⟩ := enough
  obtain ⟨best, wins⟩ := Attempt.exists_winner (mem_rows_of.2 ⟨listed, eligible⟩) total
  refine ⟨best, wins, ?_⟩
  rw [Attempt.winner?, rows_of, List.filter_filter] at wins
  have isBest := best?_isBest wins
  simp only [Bool.and_eq_true, decide_eq_true_eq, isEligible_iff] at isBest
  obtain ⟨held, own⟩ := isBest.counted
  refine ⟨held, isBest.widen own ?_⟩
  intro q _ counted not_both
  have fewer : ¬ minTotal ≤ q.counts.total := fun both => not_both ⟨both, counted⟩
  exact Row.weigh_of_total_lt (by omega)

/-- The rows of all attempts are the eligible ones. -/
theorem totals_attempts (bursts : List Burst) (state : StateKey) :
    {n | ∃ r ∈ (attempts (Table.ofRows rows) symbol state bursts).flatMap (·.rows),
      r.counts.total = n} = eligibleTotals rows symbol bursts state := by
  ext n
  simp only [attempts_eq, List.mem_flatMap, List.mem_map, Set.mem_ofPred_eq, eligibleTotals]
  constructor
  · rintro ⟨r, ⟨_, ⟨b, hb, level, hlevel, rfl⟩, hr⟩, total⟩
    obtain ⟨listed, eligible⟩ := mem_rows_of.1 hr
    exact ⟨b, hb, level, StateKey.mem_levels_iff.1 hlevel, r, listed, eligible, total⟩
  · rintro ⟨b, hb, level, hlevel, r, listed, eligible, total⟩
    exact ⟨r, ⟨_, ⟨b, hb, level, StateKey.mem_levels_iff.2 hlevel, rfl⟩,
      mem_rows_of.2 ⟨listed, eligible⟩⟩, total⟩

/-! ## The walk over all attempts -/

section Walk

variable {minTotal : Nat} {bursts : List Burst} {state : StateKey}

theorem losing_of_not_hasEnough {tried : List Burst}
    (few : ∀ b ∈ tried, ∀ l, l.IsLevelOf state → ¬ HasEnough rows symbol minTotal b l) :
    ∀ a ∈ attempts (Table.ofRows rows) symbol state tried, a.winner? minTotal = none := by
  intro a ha
  obtain ⟨b, hb, made⟩ := List.mem_flatMap.1 ha
  obtain ⟨level, hlevel, rfl⟩ := List.mem_map.1 made
  exact winner?_of_not_hasEnough (few b hb level (StateKey.mem_levels_iff.1 hlevel))

/-- **If some row has enough cases, a match is made, and it is the right one.** -/
theorem settle_selects
    (enough : ∃ b ∈ bursts, ∃ level, level.IsLevelOf state ∧ HasEnough rows symbol minTotal b level) :
    ∃ reading b level,
      settle minTotal state none (attempts (Table.ofRows rows) symbol state bursts) = .matched reading ∧
      reading.Selects rows symbol minTotal bursts state b level := by
  obtain ⟨earlier, b, later, order, ⟨level, hlevel, has⟩, before⟩ := exists_first_of_mem enough
  obtain ⟨longer, level, shorter, levels, has, above⟩ :=
    exists_first_of_mem ⟨level, StateKey.mem_levels_iff.2 hlevel, has⟩
  obtain ⟨behind, all⟩ := attempts_split (Table.ofRows rows) symbol earlier later b levels
  obtain ⟨best, wins, held, isBest⟩ := exists_winner_of has
  have isLevel : level.IsLevelOf state :=
    StateKey.mem_levels_iff.1 (levels ▸ List.mem_append_right _ List.mem_cons_self)
  have earlier_few : ∀ other ∈ earlier, ∀ l, l.IsLevelOf state →
      ¬ HasEnough rows symbol minTotal other l :=
    fun other ho l hl has => before other ho ⟨l, hl, has⟩
  have losing : ∀ a ∈ attempts (Table.ofRows rows) symbol state earlier
      ++ longer.map (Attempt.of (Table.ofRows rows) symbol b), a.winner? minTotal = none := by
    intro a ha
    rcases List.mem_append.1 ha with ha | ha
    · exact losing_of_not_hasEnough earlier_few a ha
    · obtain ⟨l, hl, rfl⟩ := List.mem_map.1 ha
      exact winner?_of_not_hasEnough (above l hl)
  -- A level that is longer than the one selected stands before it in the walk.
  have longest : ∀ l, l.IsLevelOf state → level.size < l.size →
      ¬ HasEnough rows symbol minTotal b l := by
    intro l hl larger
    have order := StateKey.pairwise_size_levels state
    have listed := StateKey.mem_levels_iff.2 hl
    rw [levels] at order listed
    rcases List.mem_append.1 listed with hl | hl
    · exact above l hl
    · rcases List.mem_cons.1 hl with rfl | hl
      · exact absurd larger (Nat.lt_irrefl _)
      · have smaller := (List.pairwise_cons.1 (List.pairwise_append.1 order).2.1).1 l hl
        omega
  refine ⟨⟨b.trigger.label, b.direction, b.movePips, state, level == state, best⟩, b, level, ?_, ?_⟩
  · rw [order, all]
    exact (settle_append [] _ losing).trans (settle_cons wins)
  · exact ⟨⟨earlier, later, order, earlier_few⟩, isLevel, longest, isBest, held, beq_iff_eq, rfl, rfl,
      rfl, rfl⟩

/-- **If none has, there is no match**, and the answer is the greatest total there is. -/
theorem settle_insufficient
    (few : ∀ b ∈ bursts, ∀ l, l.IsLevelOf state → ¬ HasEnough rows symbol minTotal b l) :
    (settle minTotal state none (attempts (Table.ofRows rows) symbol state bursts)
        = .noMatch .noRows ∧ eligibleTotals rows symbol bursts state = ∅) ∨
      ∃ n, settle minTotal state none (attempts (Table.ofRows rows) symbol state bursts)
          = .noMatch (.insufficientSample n) ∧
        IsGreatest (eligibleTotals rows symbol bursts state) n := by
  rw [settle_losing (losing_of_not_hasEnough few), ← totals_attempts]
  cases totals : greatestTotal? ((attempts (Table.ofRows rows) symbol state bursts).flatMap (·.rows)) with
  | none =>
    rw [greatestTotal?_eq_none_iff.1 totals]
    exact .inl ⟨rfl, by simp⟩
  | some n => exact .inr ⟨n, rfl, greatestTotal?_eq_some_iff.1 totals⟩

end Walk

end Rows

/-! ## The four answers -/

/-- Which answer is right, for the bursts and the state of a moment. -/
structure EdgeMatch.Answers (rows : List Row) (symbol : String) (minTotal : Nat)
    (bursts : List Burst) (state : StateKey) (result : EdgeMatch) : Prop where
  matched_iff : (∃ reading, result = .matched reading) ↔
    ∃ n ∈ eligibleTotals rows symbol bursts state, minTotal ≤ n
  selects : ∀ reading, result = .matched reading →
    ∃ b level, reading.Selects rows symbol minTotal bursts state b level
  noTrigger_iff : result = .noMatch .noTrigger ↔ bursts = []
  noRows_iff : result = .noMatch .noRows ↔
    bursts ≠ [] ∧ eligibleTotals rows symbol bursts state = ∅
  insufficientSample_iff : ∀ n, result = .noMatch (.insufficientSample n) ↔
    IsGreatest (eligibleTotals rows symbol bursts state) n ∧ n < minTotal
  hasHistory : result ≠ .noMatch .noHistory

namespace EdgeMatch

variable {rows : List Row} {symbol : String} {minTotal : Nat} {bursts : List Burst} {state : StateKey}

theorem answers_noTrigger : Answers rows symbol minTotal [] state (.noMatch .noTrigger) where
  matched_iff := by simp [eligibleTotals]
  selects := nofun
  noTrigger_iff := iff_of_true rfl rfl
  noRows_iff := by simp
  insufficientSample_iff := by simp [eligibleTotals, IsGreatest]
  hasHistory := nofun

theorem answers_noRows (some_burst : bursts ≠ [])
    (none_eligible : eligibleTotals rows symbol bursts state = ∅) :
    Answers rows symbol minTotal bursts state (.noMatch .noRows) where
  matched_iff := by simp [none_eligible]
  selects := nofun
  noTrigger_iff := iff_of_false nofun some_burst
  noRows_iff := iff_of_true rfl ⟨some_burst, none_eligible⟩
  insufficientSample_iff := by simp [none_eligible, IsGreatest]
  hasHistory := nofun

theorem answers_insufficientSample {n : Nat}
    (greatest : IsGreatest (eligibleTotals rows symbol bursts state) n) (few : n < minTotal) :
    Answers rows symbol minTotal bursts state (.noMatch (.insufficientSample n)) where
  matched_iff := by
    refine iff_of_false nofun ?_
    rintro ⟨m, hm, enough⟩
    have below := greatest.2 hm
    omega
  selects := nofun
  noTrigger_iff := by
    refine iff_of_false nofun ?_
    rintro rfl
    obtain ⟨b, hb, -⟩ := greatest.1
    cases hb
  noRows_iff := by
    refine iff_of_false nofun ?_
    rintro ⟨-, none_eligible⟩
    rw [none_eligible] at greatest
    exact greatest.1
  insufficientSample_iff := by
    intro m
    constructor
    · intro same
      obtain rfl : n = m := by simpa using same
      exact ⟨greatest, few⟩
    · rintro ⟨other, -⟩
      rw [greatest.unique other]
  hasHistory := nofun

theorem answers_matched {reading : EdgeReading} {b : Burst} {level : StateKey}
    (selected : reading.Selects rows symbol minTotal bursts state b level) :
    Answers rows symbol minTotal bursts state (.matched reading) := by
  obtain ⟨earlier, later, order, -⟩ := selected.first
  have some_burst : b ∈ bursts := order ▸ List.mem_append_right _ List.mem_cons_self
  obtain ⟨front, back, listed, eligible, -, -⟩ := selected.best
  have total : reading.row.counts.total ∈ eligibleTotals rows symbol bursts state :=
    ⟨b, some_burst, level, selected.isLevel, reading.row,
      listed ▸ List.mem_append_right _ List.mem_cons_self, eligible, rfl⟩
  refine ⟨iff_of_true ⟨reading, rfl⟩ ⟨_, total, selected.enough⟩, ?_, ?_, ?_, ?_, nofun⟩
  · intro other same
    obtain rfl : reading = other := by simpa using same
    exact ⟨b, level, selected⟩
  · exact iff_of_false nofun (List.ne_nil_of_mem some_burst)
  · refine iff_of_false nofun ?_
    rintro ⟨-, none_eligible⟩
    rw [none_eligible] at total
    exact total
  · intro n
    refine iff_of_false nofun ?_
    rintro ⟨greatest, few⟩
    have below := greatest.2 total
    have enough := selected.enough
    omega

end EdgeMatch

def EdgeMatch.reading? : EdgeMatch → Option EdgeReading
  | .matched reading => some reading
  | .noMatch _ => none

open Scan in
/-- Rows for the jump. The one for the very state has too few cases, and two others tie. -/
def jumpRows : List Row :=
  let row (symbol outcome : String) (state : StateKey) (successes total : Nat) : Row :=
    Row.ofCounts symbol 1.0 ⟨"M8_W1", outcome, .up, state⟩ ⟨successes, total⟩
  [row "EURUSD" "K15_T1" ⟨[⟨"vol", "normal"⟩]⟩ 4 5, row "GBPUSD" "K15_T1" ∅ 90 99,
    row "EURUSD" "K15_T1" ∅ 7 12, row "EURUSD" "K20_T1" ∅ 7 12, row "EURUSD" "K25_T1" ∅ 6 12]

end FxPulse
