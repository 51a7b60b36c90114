import FxPulse.Proofs.Oscillator.Rsi
import FxPulse.Proofs.Oscillator.Standing

/-!
# `Proofs/Oscillator/Averages.lean` — what relative strength has averaged

Relative strength keeps one sample, a phase and two numbers, and no history. What these two are can be said of
the whole history at once: with the samples `x₀, x₁, …`, the finite ones of the values, and the moves
`xᵢ₊₁ - xᵢ` from each to the next,

> the averages are Wilder's averages of all moves so far, gains and losses apart (`foldl_push_new`): the mean
> of the first period of them, into which each later move is blended.

As long as there are fewer moves than one period these are the sums that the mean will be taken of. Float sums
depend on their order and on where they start, so `wilder` says both.
-/

set_option autoImplicit false

namespace FxPulse.Rsi

open FxPulse.Number

/-- The values that are samples. -/
def samples (values : List Float) : List Float := values.filter (·.isFinite)

/-- The moves from each sample to the next. -/
def moves (samples : List Float) : List Float :=
  List.zipWith (fun earlier later => later - earlier) samples samples.tail

/-- What is gained by some moves. A fall gains nothing. -/
def gains (moves : List Float) : List Float := moves.map (greater · 0.0)

/-- What is lost by some moves, counted upwards. -/
def losses (moves : List Float) : List Float := moves.map fun move => greater (-move) 0.0

/-- A sum from zero on, in order. -/
def total (amounts : List Float) : Float := amounts.foldl (· + ·) 0.0

/-- An average that one more amount is blended into, with weight one over the period. -/
def blend (period : Nat) (average amount : Float) : Float :=
  (average * (period.toFloat - 1.0) + amount) / period.toFloat

/-- Wilder's average: the mean of the first period of amounts, and each later one blended into it. -/
def wilder (period : Nat) (amounts : List Float) : Float :=
  (amounts.drop period).foldl (blend period) (total (amounts.take period) / period.toFloat)

/-- The index of an average gain and an average loss. -/
def index (gain loss : Float) : Float :=
  if loss == 0.0 then 100.0 else 100.0 - 100.0 / (1.0 + gain / loss)

/-- Sums of fewer moves than one period, and averages of more. -/
def phaseOf (period : Nat) (moves : List Float) : RsiPhase :=
  if moves.length < period then .seeding (total (gains moves)) (total (losses moves)) moves.length
  else .running (wilder period (gains moves)) (wilder period (losses moves))

/-- What the averages of some moves are worth, once there are enough of them. -/
def worth? (period : Nat) (moves : List Float) : Option Float :=
  if period ≤ moves.length then
    some (index (wilder period (gains moves)) (wilder period (losses moves)))
  else none

/-! ## Averages -/

theorem length_moves (samples : List Float) : (moves samples).length = samples.length - 1 := by
  rw [moves, List.length_zipWith, List.length_tail]
  omega

theorem length_gains (moves : List Float) : (gains moves).length = moves.length := List.length_map _

theorem length_losses (moves : List Float) : (losses moves).length = moves.length := List.length_map _

theorem gains_concat (moves : List Float) (move : Float) :
    gains (moves ++ [move]) = gains moves ++ [greater move 0.0] := List.map_append

theorem losses_concat (moves : List Float) (move : Float) :
    losses (moves ++ [move]) = losses moves ++ [greater (-move) 0.0] := List.map_append

theorem total_concat (amounts : List Float) (amount : Float) :
    total (amounts ++ [amount]) = total amounts + amount := List.foldl_concat _ _ _ _

/-- Of one period of amounts it is the mean. -/
theorem wilder_of_length_eq {period : Nat} {amounts : List Float} (whole : amounts.length = period) :
    wilder period amounts = total amounts / period.toFloat := by
  rw [wilder, List.drop_of_length_le (Nat.le_of_eq whole), List.take_of_length_le (Nat.le_of_eq whole),
    List.foldl_nil]

/-- Behind the first period each amount is blended in. -/
theorem wilder_concat {period : Nat} {amounts : List Float} (enough : period ≤ amounts.length)
    (amount : Float) :
    wilder period (amounts ++ [amount]) = blend period (wilder period amounts) amount := by
  rw [wilder, List.drop_append_of_le_length enough, List.take_append_of_le_length enough,
    List.foldl_concat, wilder]

/-! ## Moves -/

/-- One more move turns sums into averages if it fills the period. -/
theorem change_phaseOf (period : Nat) (moves : List Float) (move : Float) :
    RsiPhase.change period (greater move 0.0) (greater (-move) 0.0) (phaseOf period moves)
      = phaseOf period (moves ++ [move]) := by
  rw [phaseOf, phaseOf, gains_concat, losses_concat, total_concat, total_concat, List.length_append,
    List.length_singleton]
  by_cases few : moves.length < period
  · rw [if_pos few, RsiPhase.change]
    by_cases more : moves.length + 1 < period
    · rw [if_pos more, if_pos more]
    · have whole : moves.length + 1 = period := by omega
      rw [if_neg more, if_neg more, wilder_of_length_eq, wilder_of_length_eq, total_concat, total_concat]
      · rw [List.length_append, length_losses, List.length_singleton, whole]
      · rw [List.length_append, length_gains, List.length_singleton, whole]
  · have enough : period ≤ moves.length := Nat.le_of_not_lt few
    rw [if_neg few, if_neg (by omega), RsiPhase.change, wilder_concat, wilder_concat, blend, blend]
    · rwa [length_losses]
    · rwa [length_gains]

/-! ## States -/

/-- Values that are not finite might as well not be there. -/
theorem foldl_push_finite (r : Rsi) (values : List Float) :
    values.foldl push r = (samples values).foldl push r := by
  rw [samples, List.foldl_filter]
  congr 1
  funext r x
  cases finite : x.isFinite with
  | true => rfl
  | false => exact push_of_not_finite r finite

theorem moves_concat (front : List Float) (last x : Float) :
    moves (front ++ [last, x]) = moves (front ++ [last]) ++ [x - last] := by
  induction front with
  | nil => rfl
  | cons first rest ih =>
    cases rest with
    | nil => rfl
    | cons second rest => exact congrArg ((second - first) :: ·) ih

/-- The state that some samples leave. -/
theorem foldl_push_samples (period : Nat) {samples : List Float}
    (finite : ∀ x ∈ samples, x.isFinite = true) :
    samples.foldl push (new period)
      = ⟨max period 1, samples.getLast?, phaseOf (max period 1) (moves samples)⟩ := by
  induction samples using List.reverseRecOn with
  | nil =>
    have pos : (moves []).length < max period 1 := by
      rw [length_moves, List.length_nil]
      omega
    rw [phaseOf, if_pos pos]
    rfl
  | append_singleton front x ih =>
    have earlier : ∀ y ∈ front, y.isFinite = true := fun y mem => finite y (List.mem_append_left _ mem)
    have is_finite : x.isFinite = true := finite x (List.mem_append_right _ (List.mem_singleton_self x))
    rw [List.foldl_concat, ih earlier, push, is_finite, List.getLast?_concat]
    dsimp only [Bool.not_true, Bool.false_eq_true, if_false]
    -- The first sample is no move yet.
    rcases List.eq_nil_or_concat front with rfl | ⟨front, last, rfl⟩
    · rfl
    · rw [List.concat_eq_append, List.getLast?_concat, List.append_assoc, List.cons_append,
        List.nil_append, moves_concat, ← change_phaseOf]
      rfl

/-- **The state after some values**: the last sample, and the phase of all moves between samples. -/
theorem foldl_push_new (period : Nat) (values : List Float) :
    values.foldl push (new period)
      = ⟨max period 1, (samples values).getLast?, phaseOf (max period 1) (moves (samples values))⟩ := by
  rw [foldl_push_finite]
  apply foldl_push_samples
  intro x mem
  exact (List.mem_filter.1 mem).2

theorem value?_phaseOf (period : Nat) (previous : Option Float) (moves : List Float) :
    (Rsi.mk period previous (phaseOf period moves)).value? = worth? period moves := by
  unfold phaseOf worth?
  by_cases few : moves.length < period
  · rw [if_pos few, if_neg (Nat.not_le_of_lt few)]
    rfl
  · rw [if_neg few, if_pos (Nat.le_of_not_lt few), value?, index]
    dsimp only
    split <;> rfl

/-- A period of moves takes one sample more. -/
theorem isSome_worth?_iff {period : Nat} (pos : 0 < period) (samples : List Float) :
    (worth? period (moves samples)).isSome = true ↔ period + 1 ≤ samples.length := by
  rw [worth?, length_moves]
  by_cases enough : period ≤ samples.length - 1
  · rw [if_pos enough]
    exact iff_of_true rfl (by omega)
  · rw [if_neg enough]
    exact iff_of_false (by decide) (by omega)

/-- The answer to each value is the value of the state behind it. -/
theorem feed_new (period : Nat) (values : List Float) :
    feed Oscillator.push (Oscillator.new (.rsi period)) values
      = (.rsi (values.foldl push (new period)),
          (values.foldl push (new period)).value?.map fun value => (value, none)) := by
  induction values using List.reverseRecOn with
  | nil => rfl
  | append_singleton front x ih =>
    rw [feed_concat, ih, List.foldl_concat]
    rfl

/-- **Relative strength weighs Wilder's average of all gains against that of all losses**, from the first
sample on that has a period of moves behind it, and nothing else enters into it. A value that is not finite is
answered with what the state was worth before. -/
theorem follows_wilder (period : Nat) (values : List Float) :
    values.foldl push (new period) = (samples values).foldl push (new period) ∧
    values.foldl push (new period)
      = ⟨max period 1, (samples values).getLast?, phaseOf (max period 1) (moves (samples values))⟩ ∧
    feed Oscillator.push (Oscillator.new (.rsi period)) values
      = (.rsi (values.foldl push (new period)),
          (worth? (max period 1) (moves (samples values))).map fun value => (value, none)) ∧
    ((feed Oscillator.push (Oscillator.new (.rsi period)) values).2.isSome = true ↔
      max period 1 + 1 ≤ (samples values).length) ∧
    ∀ x, x.isFinite = false →
      feed Oscillator.push (Oscillator.new (.rsi period)) (values ++ [x])
        = (.rsi (values.foldl push (new period)),
            (values.foldl push (new period)).value?.map fun value => (value, none)) := by
  have pos : 0 < max period 1 := Nat.lt_of_lt_of_le Nat.one_pos (Nat.le_max_right period 1)
  have worth : (values.foldl push (new period)).value?
      = worth? (max period 1) (moves (samples values)) := by
    rw [foldl_push_new, value?_phaseOf]
  refine ⟨foldl_push_finite _ values, foldl_push_new period values, ?_, ?_, ?_⟩
  · rw [feed_new, worth]
  · rw [feed_new, worth, Option.isSome_map]
    exact isSome_worth?_iff pos (samples values)
  · intro x not_finite
    rw [feed_new, List.foldl_concat, push_of_not_finite _ not_finite]

/-- Three samples seed the averages of a period of two moves with 1 and 0.5, the move to a fourth is blended
into them, and the values that are not finite make no difference. -/
theorem follows_wilder_not_finite :
    let values := [0.0 / 0.0, 10.0, 12.0, 1.0 / 0.0, 11.0, 12.0]
    let fed := feed Oscillator.push (Oscillator.new (.rsi 2))
    (0.0 / 0.0 : Float).isFinite = false ∧
      fed (values ++ [0.0 / 0.0]) = fed values ∧
      (fed values).2 = some (80.0, none) ∧
      (fed (values.take 4)).2 = none := by
  intro values fed
  obtain ⟨-, -, answered, -, ignored⟩ := follows_wilder 2 values
  obtain ⟨-, -, early, -, -⟩ := follows_wilder 2 (values.take 4)
  have not_finite : (0.0 / 0.0 : Float).isFinite = false := by decide +kernel
  refine ⟨not_finite, (ignored _ not_finite).trans (feed_new 2 values).symm, ?_, ?_⟩
  · rw [show fed values = _ from answered]
    decide +kernel
  · rw [show fed (values.take 4) = _ from early]
    decide +kernel

end FxPulse.Rsi
