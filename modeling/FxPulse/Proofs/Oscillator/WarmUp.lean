import FxPulse.Proofs.Oscillator.Averages

/-!
# `Proofs/Oscillator/WarmUp.lean` — how far an oscillator is from its first value

No oscillator keeps the number of its inputs. Three of them have a ring, whose size stops growing when it is
full; relative strength has a count of changes, one less than its samples, which it gives up with its first
average. What they report is nevertheless one law:

> as long as fewer inputs count than are needed, the output is both numbers; from then on it is a reading, and
> never anything else again (`reports_warmUp`).

What counts as an input is the one thing in which they differ (`OscillatorKind.counted`): relative strength
passes over values that are not finite.
-/

set_option autoImplicit false

namespace FxPulse

namespace OscillatorKind

/-- The inputs that count. -/
def counted (kind : OscillatorKind) (values : List Float) : Nat :=
  match kind with
  | .rsi _ => values.countP (·.isFinite)
  | .stochastic _ _ | .zScore _ | .percentRank _ => values.length

/-- The inputs needed for the first value. No period is shorter than one, and no window of a z-score or a rank
shorter than two. -/
def needed : OscillatorKind → Nat
  | .rsi period => max period 1 + 1
  | .stochastic k _ => max k 1
  | .zScore window | .percentRank window => max window 2

theorem needed_pos (kind : OscillatorKind) : 0 < kind.needed := by
  cases kind <;> simp only [needed] <;> omega

theorem counted_append (kind : OscillatorKind) (front back : List Float) :
    kind.counted (front ++ back) = kind.counted front + kind.counted back := by
  cases kind <;> simp [counted]

end OscillatorKind

namespace Rsi

/-- A state that has not yet seen enough says how much it has seen. -/
theorem HasSeen.seen_eq {r : Rsi} {samples : Nat} (h : r.HasSeen samples)
    (few : samples < r.required) : r.seen = samples := by
  cases h with
  | nothing pos => rfl
  | seeding few => rfl
  | running enough => exact absurd few (Nat.not_lt_of_le enough)

end Rsi

namespace Oscillator

/-! ## States -/

/-- What is asked of the state after some values: it has an answer just if enough of them count; as long as it
has none, it knows how many do; and what is needed never changes. -/
structure Counts (kind : OscillatorKind) (values : List Float) (o : Oscillator)
    (answer : Option (Float × Option Float)) : Prop where
  required : o.required = kind.needed
  seen : kind.counted values < kind.needed → o.seen = kind.counted values
  isSome_iff : answer.isSome = true ↔ kind.needed ≤ kind.counted values

theorem counts_rsi (period : Nat) (values : List Float) :
    Counts (.rsi period) values (feed push (new (.rsi period)) values).1
      (feed push (new (.rsi period)) values).2 := by
  have seen := (Rsi.hasSeen_new period).foldl_push values
  have whole := Rsi.period_foldl_push (Rsi.new period) values
  rw [Nat.zero_add] at seen
  rw [Rsi.feed_new]
  refine ⟨congrArg (· + 1) whole, fun few => seen.seen_eq ?_, ?_⟩
  · rw [Rsi.required, whole]
    exact few
  · rw [Option.isSome_map, seen.isSome_value?_iff, whole]
    exact Iff.rfl

/-- What is a ring of `n` values with an answer once it is full. -/
theorem counts_ring {kind : OscillatorKind} {n : Nat} {values : List Float} {o : Oscillator}
    {answer : Option (Float × Option Float)} (counted : kind.counted values = values.length)
    (needed : kind.needed = max n 1) (required : o.required = (Ring.ofInputs n values).capacity)
    (seen : o.seen = (Ring.ofInputs n values).size)
    (answered : answer.isSome = true ↔ max n 1 ≤ values.length) : Counts kind values o answer where
  required := by rw [required, Ring.capacity_ofInputs, needed]
  seen few := by
    rw [counted, needed] at few
    rw [seen, Ring.size_ofInputs, counted, Nat.min_eq_left (Nat.le_of_lt few)]
  isSome_iff := by rw [answered, counted, needed]

/-- **Every oscillator keeps count**, whatever it keeps. -/
theorem counts_feed (kind : OscillatorKind) (values : List Float) :
    Counts kind values (feed push (new kind) values).1 (feed push (new kind) values).2 := by
  cases kind with
  | rsi period => exact counts_rsi period values
  | stochastic k d =>
    have fed := feed_hom Stochastic.push push Oscillator.stochastic id
      (fun s x => by rw [Option.map_id]; rfl) (Stochastic.new k d) values
    rw [feed_stochastic] at fed
    rw [show new (.stochastic k d) = .stochastic (Stochastic.new k d) from rfl, fed]
    refine counts_ring (n := k) rfl rfl rfl rfl ?_
    rw [Option.map_id, id_eq, Option.isSome_map, isSome_measured?_iff _ (by omega)]
  | zScore window =>
    have fed := feed_hom ZScore.push push Oscillator.zScore (fun value => (value, none))
      (fun _ _ => rfl) (ZScore.new window) values
    rw [feed_zScore] at fed
    rw [show new (.zScore window) = .zScore (ZScore.new window) from rfl, fed]
    refine counts_ring (n := max window 2) rfl ?_ rfl rfl ?_
    · simp only [OscillatorKind.needed]
      omega
    · rw [Option.isSome_map, isSome_measured?_iff _ (by omega)]
      omega
  | percentRank window =>
    have fed := feed_hom PercentRank.push push Oscillator.percentRank (fun value => (value, none))
      (fun _ _ => rfl) (PercentRank.new window) values
    rw [feed_percentRank] at fed
    rw [show new (.percentRank window) = .percentRank (PercentRank.new window) from rfl, fed]
    refine counts_ring (n := max window 2) rfl ?_ rfl rfl ?_
    · simp only [OscillatorKind.needed]
      omega
    · rw [Option.isSome_map, isSome_measured?_iff _ (by omega)]
      omega

/-! ## Outputs -/

/-- The output after some points, with a last one: a reading at the time of that one if there is an answer, and
else how far the state has got. -/
theorem follow_concat_snd (o : Oscillator) (bands : Bands) (points : List Point) (p : Point) :
    (o.follow bands (points ++ [p])).2
      = match (feed push o ((points ++ [p]).map (·.value))).2 with
        | some (value, signal) => .ready ⟨p.ts, value, signal, bands.zone value⟩
        | none => (feed push o ((points ++ [p]).map (·.value))).1.insufficient := by
  rw [follow_concat, update, follow_fst, List.map_append, List.map_singleton, feed_concat]
  dsimp only
  cases ((feed push o (points.map (·.value))).1.push p.value).2 <;> rfl

/-- The output after at least one point. -/
theorem follow_concat_cases (kind : OscillatorKind) (bands : Bands) (points : List Point) (p : Point) :
    (kind.needed ≤ kind.counted ((points ++ [p]).map (·.value)) ∧ ∃ value signal,
      ((new kind).follow bands (points ++ [p])).2
        = .ready ⟨p.ts, value, signal, bands.zone value⟩) ∨
    (kind.counted ((points ++ [p]).map (·.value)) < kind.needed ∧
      ((new kind).follow bands (points ++ [p])).2
        = .insufficient (kind.counted ((points ++ [p]).map (·.value))) kind.needed) := by
  have counts := counts_feed kind ((points ++ [p]).map (·.value))
  rw [follow_concat_snd]
  revert counts
  generalize feed push (new kind) ((points ++ [p]).map (·.value)) = fed
  intro counts
  obtain ⟨state, answer⟩ := fed
  cases answer with
  | some answer => exact .inl ⟨counts.isSome_iff.1 rfl, _, _, rfl⟩
  | none =>
    have few : kind.counted ((points ++ [p]).map (·.value)) < kind.needed := by
      rw [← Nat.not_le, ← counts.isSome_iff]
      exact Bool.false_ne_true
    refine .inr ⟨few, ?_⟩
    rw [← counts.seen few, ← counts.required]
    rfl

/-- The output after some points, or none. -/
theorem follow_cases (kind : OscillatorKind) (bands : Bands) (points : List Point) :
    (kind.needed ≤ kind.counted (points.map (·.value)) ∧ ∃ p value signal, points.getLast? = some p ∧
      ((new kind).follow bands points).2 = .ready ⟨p.ts, value, signal, bands.zone value⟩) ∨
    (kind.counted (points.map (·.value)) < kind.needed ∧
      ((new kind).follow bands points).2
        = .insufficient (kind.counted (points.map (·.value))) kind.needed) := by
  rcases List.eq_nil_or_concat points with rfl | ⟨front, p, rfl⟩
  · have counts := counts_feed kind []
    have none_yet : kind.counted [] < kind.needed := by
      have pos := kind.needed_pos
      cases kind <;> exact pos
    refine .inr ⟨none_yet, ?_⟩
    change (new kind).insufficient = _
    rw [List.map_nil, ← counts.seen none_yet, ← counts.required]
    rfl
  · rw [List.concat_eq_append]
    rcases follow_concat_cases kind bands front p with ⟨enough, value, signal, shown⟩ | few
    · exact .inl ⟨enough, p, value, signal, List.getLast?_concat, shown⟩
    · exact .inr few

/-- How far an oscillator has got is never undone by more points. -/
theorem exists_ready_append {kind : OscillatorKind} {bands : Bands} {points : List Point} {r : Reading}
    (shown : ((new kind).follow bands points).2 = .ready r) (more : List Point) :
    ∃ r', ((new kind).follow bands (points ++ more)).2 = .ready r' := by
  have enough : kind.needed ≤ kind.counted (points.map (·.value)) := by
    rcases follow_cases kind bands points with ⟨enough, -⟩ | ⟨-, still⟩
    · exact enough
    · rw [shown] at still
      cases still
  rcases follow_cases kind bands (points ++ more) with ⟨-, p, value, signal, -, shown⟩ | ⟨few, -⟩
  · exact ⟨_, shown⟩
  · rw [List.map_append, OscillatorKind.counted_append] at few
    omega

/-- **Warm-up is reported exactly.** Of every kind, with any periods and bands: a new oscillator has seen
nothing; the output for each point is a reading at its time once as many inputs count as are needed, and up to
then says how many do and how many are needed, which is always less; the number needed never changes; and an
oscillator, by itself or as the entry of a bank, that has shown a reading shows readings ever after. -/
theorem reports_warmUp (kind : OscillatorKind) (bands : Bands) :
    (new kind).insufficient = .insufficient 0 kind.needed ∧
    (∀ points, ((new kind).follow bands points).1.required = kind.needed) ∧
    (∀ points p, let output := ((new kind).follow bands (points ++ [p])).2
      let count := kind.counted ((points ++ [p]).map (·.value))
      ((∃ value signal, output = .ready ⟨p.ts, value, signal, bands.zone value⟩) ↔
        kind.needed ≤ count) ∧
      (output = .insufficient count kind.needed ↔ count < kind.needed)) ∧
    (∀ points seen needed, ((new kind).follow bands points).2 = .insufficient seen needed →
      seen = kind.counted (points.map (·.value)) ∧ needed = kind.needed ∧ seen < needed) ∧
    (∀ points r, ((new kind).follow bands points).2 = .ready r → ∀ more,
      ∃ r', ((new kind).follow bands (points ++ more)).2 = .ready r') ∧
    ∀ (e : BankEntry) points r, e.spec.kind = kind → e.HasRead points → e.output = .ready r →
      ∀ more, ∃ r', (e.takeAll more).output = .ready r' := by
  refine ⟨?_, ?_, ?_, ?_, fun _ _ => exists_ready_append, ?_⟩
  · have fresh := follow_cases kind bands []
    rcases fresh with ⟨-, p, value, signal, last, -⟩ | ⟨-, shown⟩
    · cases last
    · refine shown.trans ?_
      cases kind <;> rfl
  · intro points
    rw [follow_fst]
    exact (counts_feed kind _).required
  · intro points p output count
    rcases follow_concat_cases kind bands points p with ⟨enough, value, signal, shown⟩ | ⟨few, shown⟩
    · refine ⟨iff_of_true ⟨value, signal, shown⟩ enough, iff_of_false ?_ (Nat.not_lt_of_le enough)⟩
      rw [show output = _ from shown]
      exact nofun
    · refine ⟨iff_of_false ?_ (Nat.not_le_of_lt few), iff_of_true shown few⟩
      rw [show output = _ from shown]
      exact nofun
  · intro points seen needed reported
    rcases follow_cases kind bands points with ⟨-, p, value, signal, -, shown⟩ | ⟨few, shown⟩
    · rw [shown] at reported
      cases reported
    · rw [shown] at reported
      cases reported
      exact ⟨rfl, rfl, few⟩
  · rintro e points r rfl read shown more
    have before := congrArg Prod.snd read.state
    have behind := congrArg Prod.snd (read.takeAll more).state
    dsimp only at before behind
    rw [behind, BankEntry.spec_takeAll]
    exact exists_ready_append (before.symm.trans shown) more

/-- Relative strength of period 0 needs two samples. It passes over the value that is no number, and shows
a reading for it once it has them. -/
example : ((new (.rsi 0)).follow ⟨70.0, 30.0⟩ [⟨1, 2.0⟩, ⟨2, 0.0 / 0.0⟩]).2 = .insufficient 1 2 ∧
    ((new (.rsi 0)).follow ⟨70.0, 30.0⟩ [⟨1, 2.0⟩, ⟨2, 3.0⟩, ⟨3, 0.0 / 0.0⟩]).2
      = .ready ⟨3, 100.0, none, .overbought⟩ := by
  decide +kernel

end Oscillator

end FxPulse
