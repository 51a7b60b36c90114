import FxPulse.Proofs.Checked.Oscillators
import FxPulse.Proofs.Oscillator.Entry
import Mathlib.Data.List.Infix

/-!
# `Proofs/Oscillator/Standing.lean` — oscillators that remember a window

A ring that wraps around holds the last values that were pushed into it, in the order in which they came,
whatever its capacity and wherever its next slot is. So

> z-score, percent rank and stochastic place are measures of the last inputs alone, as many as the window
> holds, and the signal is the mean of the places at the last inputs (`feed_measure`, `feed_stochastic`).

They are floats, and the sums behind them depend on the order of the values; what is claimed is that they are
equal, and not that they are near. An input that is no number spoils what is measured as long as it is in the
window, and is forgotten with it.
-/

set_option autoImplicit false

namespace FxPulse

open FxPulse.Number

/-! ## Rings -/

namespace Ring

/-- What is pushed into a new ring. -/
def ofInputs (n : Nat) (inputs : List Float) : Ring := inputs.foldl push (new n)

theorem ofInputs_concat (n : Nat) (inputs : List Float) (x : Float) :
    ofInputs n (inputs ++ [x]) = (ofInputs n inputs).push x := List.foldl_concat push _ _ _

theorem capacity_ofInputs (n : Nat) (inputs : List Float) : (ofInputs n inputs).capacity = max n 1 := by
  induction inputs using List.reverseRecOn with
  | nil => rfl
  | append_singleton front x ih => rw [ofInputs_concat, capacity_push, ih]

/-- **A ring holds the last values pushed into it**, as many as it has room for. -/
theorem toList_ofInputs (n : Nat) (inputs : List Float) :
    (ofInputs n inputs).toList = inputs.rtake (max n 1) := by
  induction inputs using List.reverseRecOn with
  | nil => rw [List.rtake_nil]; exact toList_new n
  | append_singleton front x ih =>
    obtain ⟨room, one_more⟩ : ∃ room, max n 1 = room + 1 := ⟨max n 1 - 1, by omega⟩
    have size : (ofInputs n front).size = (front.rtake (max n 1)).length := by
      rw [← ih, length_toList]
    rw [ofInputs_concat, toList_push, ih, one_more, List.rtake_concat_succ]
    congr 1
    -- The oldest value makes room only if there are as many as the capacity.
    rw [one_more, List.rtake, List.length_drop] at size
    rw [List.rtake, List.rtake, List.drop_drop]
    by_cases full : (ofInputs n front).isFull = true
    · rw [if_pos full]
      rw [isFull_iff, capacity_ofInputs, ← Ring.size, size, one_more] at full
      congr 1
      omega
    · rw [if_neg full]
      rw [isFull_iff, capacity_ofInputs, ← Ring.size, size, one_more] at full
      congr 1
      omega

theorem size_ofInputs (n : Nat) (inputs : List Float) :
    (ofInputs n inputs).size = min inputs.length (max n 1) := by
  rw [← length_toList, toList_ofInputs, List.rtake, List.length_drop]
  omega

theorem isFull_ofInputs (n : Nat) (inputs : List Float) :
    (ofInputs n inputs).isFull = true ↔ max n 1 ≤ inputs.length := by
  rw [isFull_iff, capacity_ofInputs, ← Ring.size, size_ofInputs]
  omega

end Ring

/-! ## Formulas -/

namespace Formula

/-- The sum from the first value to the last. The negative zero that it starts from changes no value. -/
def total (xs : List Float) : Float := xs.foldl (fun sum x => sum + x) (-0.0)

def average (xs : List Float) : Float := total xs / xs.length.toFloat

/-- The standard deviation: the root of the average square of the distances from the average. -/
def spread (xs : List Float) : Float :=
  (total (xs.map fun x => (x - average xs) * (x - average xs)) / xs.length.toFloat).sqrt

def zScore (xs : List Float) (x : Float) : Float :=
  if spread xs == 0.0 then 0.0 else (x - average xs) / spread xs

/-- The values before the last count one each if they are less than `x` and a half if they are equal to it;
the rank is what they come to, in percent of their number. -/
def percentRank (xs : List Float) (x : Float) : Float :=
  let points := (xs.take (xs.length - 1)).foldl
    (fun points v => if v < x then points + 1.0 else if v == x then points + 0.5 else points) 0.0
  points / (xs.length - 1).toFloat * 100.0

/-- The least value, passing over what is no number. -/
def lowest (xs : List Float) : Float :=
  xs.foldl (fun low x => if x.isNaN then low else if low < x then low else x) (1.0 / 0.0)

/-- The greatest value, passing over what is no number. -/
def highest (xs : List Float) : Float :=
  xs.foldl (fun high x => if x.isNaN then high else if x < high then high else x) (-(1.0 / 0.0))

/-- The place between the least value and the greatest, in percent; half way where they are the same. -/
def place (xs : List Float) (x : Float) : Float :=
  if highest xs > lowest xs then (x - lowest xs) / (highest xs - lowest xs) * 100.0 else 50.0

/-! What is measured are these formulas, of any list that is not empty. -/

variable {xs : List Float}

theorem average_eq (some_value : xs ≠ []) : mean xs = average xs := by
  rw [mean, if_neg (by simpa using some_value)]
  rfl

theorem spread_eq (some_value : xs ≠ []) : deviation xs = spread xs := by
  rw [deviation, if_neg (by simpa using some_value), average_eq some_value]
  rfl

theorem zScore_eq (some_value : xs ≠ []) (x : Float) : zScoreOf xs x = zScore xs x := by
  rw [zScoreOf, spread_eq some_value, average_eq some_value]
  rfl

theorem percentRank_eq (xs : List Float) (x : Float) : percentRankOf xs x = percentRank xs x := by
  rw [percentRankOf, List.length_dropLast, List.dropLast_eq_take]
  rfl

theorem lowest_eq (xs : List Float) : least xs = lowest xs := by
  have step : lesser = fun low x => if x.isNaN then low else if low < x then low else x := by
    funext low x
    rw [lesser]
    cases x.isNaN <;> simp
  rw [least, step]
  rfl

theorem highest_eq (xs : List Float) : greatest xs = highest xs := by
  have step : greater = fun high x => if x.isNaN then high else if x < high then high else x := by
    funext high x
    rw [greater]
    cases x.isNaN <;> simp
  rw [greatest, step]
  rfl

theorem place_eq (xs : List Float) (x : Float) : stochasticOf xs x = place xs x := by
  rw [stochasticOf, lowest_eq, highest_eq]
  rfl

end Formula

/-! ## Measures of a window -/

/-- A measure of the newest input among the last `n`, once there are that many. -/
def measured? (measure : List Float → Float → Float) (n : Nat) (inputs : List Float) : Option Float :=
  if n ≤ inputs.length then inputs.getLast?.map (measure (inputs.rtake n)) else none

/-- The measures at all inputs so far, in their order. -/
def measures (measure : List Float → Float → Float) (n : Nat) (inputs : List Float) : List Float :=
  inputs.inits.filterMap (measured? measure n)

section Measures

variable (measure : List Float → Float → Float)

/-- What there is to say of a new value: something once the ring behind it is full. -/
theorem measured?_concat (n : Nat) (inputs : List Float) (x : Float) :
    measured? measure (max n 1) (inputs ++ [x])
      = if ((Ring.ofInputs n inputs).push x).isFull then
          some (measure ((Ring.ofInputs n inputs).push x).toList x)
        else none := by
  rw [← Ring.ofInputs_concat, Ring.toList_ofInputs, measured?, List.getLast?_concat, Option.map_some]
  simp only [Ring.isFull_ofInputs]

/-- Inputs in front of the window make no difference. -/
theorem measured?_append {n : Nat} (front : List Float) {recent : List Float}
    (enough : n ≤ recent.length) (pos : 0 < n) :
    measured? measure n (front ++ recent) = measured? measure n recent := by
  have more : n ≤ (front ++ recent).length := by
    rw [List.length_append]
    omega
  have some_recent : recent ≠ [] := by
    rintro rfl
    rw [List.length_nil] at enough
    omega
  rw [measured?, measured?, if_pos more, if_pos enough, rtake_append_of_le_length front enough,
    List.getLast?_append_of_ne_nil _ some_recent]

theorem measured?_nil (n : Nat) : measured? measure n [] = none := by
  unfold measured?
  split <;> rfl

theorem isSome_measured?_iff {n : Nat} (pos : 0 < n) (inputs : List Float) :
    (measured? measure n inputs).isSome = true ↔ n ≤ inputs.length := by
  unfold measured?
  cases inputs with
  | nil => simp [Nat.ne_of_gt pos]
  | cons first rest => simp [List.getLast?_cons]

theorem measures_nil (n : Nat) : measures measure n [] = [] := by
  simp [measures, measured?_nil]

theorem measures_concat (n : Nat) (inputs : List Float) (x : Float) :
    measures measure n (inputs ++ [x])
      = measures measure n inputs ++ (measured? measure n (inputs ++ [x])).toList := by
  cases measured : measured? measure n (inputs ++ [x]) <;>
    simp [measures, List.inits_append, measured]

theorem length_measures {n : Nat} (pos : 0 < n) (inputs : List Float) :
    (measures measure n inputs).length = inputs.length + 1 - n := by
  induction inputs using List.reverseRecOn with
  | nil =>
    rw [measures_nil, List.length_nil]
    omega
  | append_singleton front x ih =>
    rw [measures_concat, List.length_append, ih, measured?, List.getLast?_concat, Option.map_some,
      List.length_append, List.length_singleton]
    by_cases enough : n ≤ front.length + 1
    · rw [if_pos enough, Option.toList_some, List.length_singleton]
      omega
    · rw [if_neg enough, Option.toList_none, List.length_nil]
      omega

/-- The last measures of a history are those of its recent inputs. -/
theorem measures_suffix {n : Nat} (pos : 0 < n) (front recent : List Float) :
    measures measure n recent <:+ measures measure n (front ++ recent) := by
  induction recent using List.reverseRecOn with
  | nil =>
    rw [measures_nil]
    exact List.nil_suffix
  | append_singleton recent x ih =>
    rw [← List.append_assoc, measures_concat, measures_concat, List.append_assoc]
    by_cases enough : n ≤ (recent ++ [x]).length
    · rw [measured?_append measure front enough pos]
      obtain ⟨before, whole⟩ := ih
      exact ⟨before, by rw [← List.append_assoc, whole]⟩
    · -- As yet there are no measures of the recent inputs.
      have few : measures measure n recent ++ (measured? measure n (recent ++ [x])).toList = [] := by
        rw [← measures_concat, ← List.length_eq_zero_iff, length_measures measure pos]
        omega
      rw [few]
      exact List.nil_suffix

theorem rtake_measures_append {n count : Nat} (pos : 0 < n) (front : List Float) {recent : List Float}
    (enough : n + count - 1 ≤ recent.length) :
    (measures measure n (front ++ recent)).rtake count = (measures measure n recent).rtake count := by
  obtain ⟨before, whole⟩ := measures_suffix measure pos front recent
  rw [← whole]
  apply rtake_append_of_le_length
  rw [length_measures measure pos]
  omega

end Measures

/-- Measures that agree on lists with values agree on windows. -/
theorem measured?_congr {measure other : List Float → Float → Float}
    (same : ∀ xs, xs ≠ [] → ∀ x, measure xs x = other xs x) {n : Nat} (pos : 0 < n)
    (inputs : List Float) : measured? measure n inputs = measured? other n inputs := by
  unfold measured?
  by_cases enough : n ≤ inputs.length
  · have some_value : inputs.rtake n ≠ [] := by
      rw [← List.length_pos_iff, List.rtake, List.length_drop]
      omega
    rw [if_pos enough, if_pos enough]
    cases inputs.getLast? with
    | none => rfl
    | some x => exact congrArg some (same _ some_value x)
  · rw [if_neg enough, if_neg enough]

theorem measures_congr {measure other : List Float → Float → Float}
    (same : ∀ xs, xs ≠ [] → ∀ x, measure xs x = other xs x) {n : Nat} (pos : 0 < n)
    (inputs : List Float) : measures measure n inputs = measures other n inputs := by
  rw [measures, measures, funext (measured?_congr same pos)]

/-! ## Oscillators -/

/-- The state after some inputs, taken in one after the other, and what was answered to the last. -/
def feed {σ β : Type} (push : σ → Float → σ × Option β) (start : σ) (inputs : List Float) :
    σ × Option β :=
  inputs.foldl (fun now x => push now.1 x) (start, none)

theorem feed_concat {σ β : Type} (push : σ → Float → σ × Option β) (start : σ) (inputs : List Float)
    (x : Float) : feed push start (inputs ++ [x]) = push (feed push start inputs).1 x :=
  List.foldl_concat _ _ _ _

/-- What is no more than a ring and a measure of its values answers with the measure. -/
theorem feed_measure {σ : Type} (measure : List Float → Float → Float) (push : σ → Float → σ × Option Float)
    (state : Ring → σ)
    (same : ∀ r x, push (state r) x = (state (r.push x),
      if (r.push x).isFull then some (measure (r.push x).toList x) else none))
    (n : Nat) (inputs : List Float) :
    feed push (state (Ring.new n)) inputs
      = (state (Ring.ofInputs n inputs), measured? measure (max n 1) inputs) := by
  induction inputs using List.reverseRecOn with
  | nil => rw [measured?_nil]; rfl
  | append_singleton front x ih =>
    rw [feed_concat, ih, same, measured?_concat, Ring.ofInputs_concat]

theorem feed_zScore (window : Nat) (inputs : List Float) :
    feed ZScore.push (ZScore.new window) inputs
      = (⟨Ring.ofInputs (max window 2) inputs⟩, measured? zScoreOf (max window 2) inputs) := by
  have fed := feed_measure zScoreOf ZScore.push ZScore.mk (fun _ _ => rfl) (max window 2) inputs
  rwa [show max (max window 2) 1 = max window 2 by omega] at fed

theorem feed_percentRank (window : Nat) (inputs : List Float) :
    feed PercentRank.push (PercentRank.new window) inputs
      = (⟨Ring.ofInputs (max window 2) inputs⟩, measured? percentRankOf (max window 2) inputs) := by
  have fed := feed_measure percentRankOf PercentRank.push PercentRank.mk (fun _ _ => rfl)
    (max window 2) inputs
  rwa [show max (max window 2) 1 = max window 2 by omega] at fed

/-- The mean of the places at the last inputs, once there are enough inputs for all of these places. -/
def signal? (k d : Nat) (inputs : List Float) : Option Float :=
  if max k 1 + max d 1 - 1 ≤ inputs.length then
    some (mean ((measures stochasticOf (max k 1) inputs).rtake (max d 1)))
  else none

namespace Formula

/-- The average of the places at the last inputs, each of them taken of the window that ends there. -/
def signal? (k d : Nat) (inputs : List Float) : Option Float :=
  if max k 1 + max d 1 - 1 ≤ inputs.length then
    some (average ((measures place (max k 1) inputs).rtake (max d 1)))
  else none

theorem signal?_eq (k d : Nat) (inputs : List Float) :
    FxPulse.signal? k d inputs = signal? k d inputs := by
  have window : 0 < max k 1 := by omega
  unfold FxPulse.signal? signal?
  by_cases enough : max k 1 + max d 1 - 1 ≤ inputs.length
  · have some_place : (measures place (max k 1) inputs).rtake (max d 1) ≠ [] := by
      rw [← List.length_pos_iff, List.rtake, List.length_drop, length_measures place window]
      omega
    rw [if_pos enough, if_pos enough, measures_congr (fun xs _ x => place_eq xs x) window,
      average_eq some_place]
  · rw [if_neg enough, if_neg enough]

end Formula

theorem feed_stochastic (k d : Nat) (inputs : List Float) :
    feed Stochastic.push (Stochastic.new k d) inputs
      = (⟨Ring.ofInputs k inputs, Ring.ofInputs d (measures stochasticOf (max k 1) inputs)⟩,
        (measured? stochasticOf (max k 1) inputs).map fun place => (place, signal? k d inputs)) := by
  induction inputs using List.reverseRecOn with
  | nil => rw [measured?_nil, measures_nil]; rfl
  | append_singleton front x ih =>
    have answer := measured?_concat stochasticOf k front x
    have places := measures_concat stochasticOf (max k 1) front x
    have count := length_measures stochasticOf (Nat.le_max_right k 1) (front ++ [x])
    rw [feed_concat, ih, Stochastic.push, answer]
    rw [answer] at places
    dsimp only
    by_cases full : ((Ring.ofInputs k front).push x).isFull = true
    · rw [if_pos full, Option.toList_some] at places
      have signal : max k 1 + max d 1 - 1 ≤ (front ++ [x]).length ↔
          (Ring.ofInputs d (measures stochasticOf (max k 1) (front ++ [x]))).isFull = true := by
        rw [Ring.isFull_ofInputs, count]
        omega
      rw [if_pos full, if_pos full, Option.map_some, Ring.ofInputs_concat, ← Ring.ofInputs_concat d,
        ← places, signal?]
      simp only [signal, Ring.toList_ofInputs]
    · rw [if_neg full, Option.toList_none, List.append_nil] at places
      rw [if_neg full, if_neg full, Option.map_none, Ring.ofInputs_concat, places]

/-- Inputs in front of the last ones make no difference to the signal. -/
theorem signal?_append (k d : Nat) (front : List Float) {recent : List Float}
    (enough : max k 1 + max d 1 - 1 ≤ recent.length) :
    signal? k d (front ++ recent) = signal? k d recent := by
  have more : max k 1 + max d 1 - 1 ≤ (front ++ recent).length := by
    rw [List.length_append]
    omega
  rw [signal?, signal?, if_pos more, if_pos enough, rtake_measures_append _ (by omega) _ enough]

/-- An oscillator whose answers are those of another state is fed as that state is. -/
theorem feed_hom {σ τ β γ : Type} (inner : σ → Float → σ × Option β) (outer : τ → Float → τ × Option γ)
    (state : σ → τ) (answer : β → γ)
    (same : ∀ s x, outer (state s) x = (state (inner s x).1, (inner s x).2.map answer))
    (start : σ) (inputs : List Float) :
    feed outer (state start) inputs
      = (state (feed inner start inputs).1, (feed inner start inputs).2.map answer) := by
  induction inputs using List.reverseRecOn with
  | nil => rfl
  | append_singleton front x ih => rw [feed_concat, feed_concat, ih, same]

namespace OscillatorKind

/-- The number of last inputs that an oscillator remembers, if it forgets at all. -/
def memory? : OscillatorKind → Option Nat
  | .rsi _ => none
  | .stochastic k d => some (max k 1 + max d 1 - 1)
  | .zScore window | .percentRank window => some (max window 2)

end OscillatorKind

namespace Oscillator

theorem feed_new_zScore (window : Nat) (inputs : List Float) :
    (feed push (new (.zScore window)) inputs).2
      = (measured? zScoreOf (max window 2) inputs).map fun value => (value, none) := by
  have fed := feed_hom ZScore.push push Oscillator.zScore (fun value => (value, none))
    (fun _ _ => rfl) (ZScore.new window) inputs
  rw [feed_zScore] at fed
  exact congrArg Prod.snd fed

theorem feed_new_percentRank (window : Nat) (inputs : List Float) :
    (feed push (new (.percentRank window)) inputs).2
      = (measured? percentRankOf (max window 2) inputs).map fun value => (value, none) := by
  have fed := feed_hom PercentRank.push push Oscillator.percentRank (fun value => (value, none))
    (fun _ _ => rfl) (PercentRank.new window) inputs
  rw [feed_percentRank] at fed
  exact congrArg Prod.snd fed

theorem feed_new_stochastic (k d : Nat) (inputs : List Float) :
    (feed push (new (.stochastic k d)) inputs).2
      = (measured? stochasticOf (max k 1) inputs).map fun place => (place, signal? k d inputs) := by
  have fed := feed_hom Stochastic.push push Oscillator.stochastic id
    (fun s x => by rw [Option.map_id]; rfl) (Stochastic.new k d) inputs
  rw [feed_stochastic, Option.map_id] at fed
  exact congrArg Prod.snd fed

/-- Whatever came before what an oscillator remembers, it has an answer, and the same one. -/
theorem feed_append {kind : OscillatorKind} {n : Nat} (memory : kind.memory? = some n)
    (front : List Float) {recent : List Float} (enough : n ≤ recent.length) :
    (feed push (new kind) (front ++ recent)).2 = (feed push (new kind) recent).2 ∧
      (feed push (new kind) recent).2.isSome = true := by
  cases kind with
  | rsi period => cases memory
  | stochastic k d =>
    cases memory
    have window : max k 1 ≤ recent.length := by omega
    rw [feed_new_stochastic, feed_new_stochastic, signal?_append k d front enough,
      measured?_append _ front window (by omega), Option.isSome_map,
      isSome_measured?_iff _ (by omega)]
    exact ⟨rfl, window⟩
  | zScore window =>
    cases memory
    rw [feed_new_zScore, feed_new_zScore, measured?_append _ front enough (by omega),
      Option.isSome_map, isSome_measured?_iff _ (by omega)]
    exact ⟨rfl, enough⟩
  | percentRank window =>
    cases memory
    rw [feed_new_percentRank, feed_new_percentRank, measured?_append _ front enough (by omega),
      Option.isSome_map, isSome_measured?_iff _ (by omega)]
    exact ⟨rfl, enough⟩

theorem follow_concat (o : Oscillator) (bands : Bands) (points : List Point) (p : Point) :
    o.follow bands (points ++ [p]) = (o.follow bands points).1.update p bands :=
  List.foldl_concat _ _ _ _

/-- The values of points are what an oscillator takes in of them. -/
theorem follow_fst (o : Oscillator) (bands : Bands) (points : List Point) :
    (o.follow bands points).1 = (feed push o (points.map (·.value))).1 := by
  induction points using List.reverseRecOn with
  | nil => rfl
  | append_singleton front p ih =>
    rw [follow_concat, List.map_append, List.map_singleton, feed_concat, ← ih, update]
    dsimp only
    cases ((o.follow bands front).1.push p.value).2 <;> rfl

/-- An answer is shown with the time of the last point. -/
theorem follow_snd {o : Oscillator} {points : List Point} {value : Float} {signal : Option Float}
    (answered : (feed push o (points.map (·.value))).2 = some (value, signal)) (bands : Bands) :
    ∃ p, points.getLast? = some p ∧
      (o.follow bands points).2 = .ready ⟨p.ts, value, signal, bands.zone value⟩ := by
  induction points using List.reverseRecOn with
  | nil => cases answered
  | append_singleton front p _ =>
    rw [List.map_append, List.map_singleton, feed_concat, ← follow_fst o bands] at answered
    refine ⟨p, List.getLast?_concat, ?_⟩
    rw [follow_concat, update]
    dsimp only
    rw [answered]

/-- **Two histories that end in what an oscillator remembers end in the same output.** -/
theorem follow_append {kind : OscillatorKind} {n : Nat} (memory : kind.memory? = some n)
    (bands : Bands) (early late : List Point) {recent : List Point} (enough : n ≤ recent.length) :
    ((new kind).follow bands (early ++ recent)).2 = ((new kind).follow bands (late ++ recent)).2 := by
  have values_enough : n ≤ (recent.map (·.value)).length := by rwa [List.length_map]
  obtain ⟨⟨value, signal⟩, answered⟩ :=
    Option.isSome_iff_exists.1 (feed_append memory [] values_enough).2
  have some_recent : recent ≠ [] := by
    rintro rfl
    cases answered
  have output : ∀ front : List Point, ∃ p, recent.getLast? = some p ∧
      ((new kind).follow bands (front ++ recent)).2
        = .ready ⟨p.ts, value, signal, bands.zone value⟩ := by
    intro front
    have same := (feed_append memory (front.map (·.value)) values_enough).1
    rw [answered, ← List.map_append] at same
    obtain ⟨p, last, shown⟩ := follow_snd same bands
    rw [List.getLast?_append_of_ne_nil _ some_recent] at last
    exact ⟨p, last, shown⟩
  obtain ⟨p, last, shown⟩ := output early
  obtain ⟨q, also_last, also_shown⟩ := output late
  rw [shown, also_shown, Option.some.inj (last.symm.trans also_last)]

end Oscillator

end FxPulse
