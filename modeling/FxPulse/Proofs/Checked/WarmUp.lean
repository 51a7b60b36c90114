import FxPulse.Proofs.Checked.Oscillators
import FxPulse.Proofs.Oscillator.WarmUp

/-!
# `Proofs/Checked/WarmUp.lean` — the number of values that is needed, in words

Relative strength needs one sample more than its period, and the period may be the greatest number that a
word holds. So what is told of its warm-up is right for all periods but that one:

> the number needed is told if and only if a word holds it, and then all that an oscillator shows while it
> warms up is exact (`warmUp_exact`).
-/

set_option autoImplicit false

namespace FxPulse.Checked

open FxPulse.Number FxPulse.Oscillator

/-- What an oscillator of a kind shows after some points, and what it keeps of them. -/
def follow (b : Build) (kind : OscillatorKind) (bands : Bands) (points : List Point) :
    Checked (Oscillator × OscillatorOutput) := do
  let fresh ← Oscillator.make kind
  points.foldlM (fun now p => update b now.1 p bands) (fresh, ← insufficient b fresh)

theorem required_new (kind : OscillatorKind) : (new kind).required = kind.needed :=
  (counts_feed kind []).required

theorem fits_new {kind : OscillatorKind} : (new kind).Fits ↔ fitsCount kind.needed = true := by
  rw [Oscillator.Fits, required_new]

section Fits

variable {kind : OscillatorKind} (storable : ∀ n ∈ kind.capacities, n ≤ Ring.greatestCapacity)

theorem foldlM_update {o : Oscillator} (fits : o.Fits) (b : Build) (bands : Bands) (points : List Point)
    (shown : OscillatorOutput) :
    points.foldlM (fun now p => update b now.1 p bands) (o, shown)
      = .ok (points.foldl (fun now p => now.1.update p bands) (o, shown)) := by
  induction points generalizing o shown with
  | nil => rfl
  | cons p rest ih =>
    have next : (o.update p bands).1.Fits := by rwa [Oscillator.Fits, required_update]
    rw [List.foldlM_cons, update_eq fits, ok_bind, List.foldl_cons]
    exact ih next _

include storable

/-- **An oscillator is followed in words as it is without.** -/
theorem follow_eq (fits : (new kind).Fits) (b : Build) (bands : Bands) (points : List Point) :
    follow b kind bands points = .ok ((new kind).follow bands points) := by
  rw [follow, make_storable storable, ok_bind, insufficient_eq fits, ok_bind, foldlM_update fits]
  rfl

/-- The points that an entry of a bank takes in, from its start. -/
theorem takeAll_start_eq (fits : (new kind).Fits) (b : Build) (source : Source) (bands : Bands)
    (points : List Point) :
    (do points.foldlM (take b) (← start b ⟨source, kind, bands⟩))
      = .ok ((BankEntry.start ⟨source, kind, bands⟩ (new kind)).takeAll points) := by
  have started : start b ⟨source, kind, bands⟩
      = .ok (BankEntry.start ⟨source, kind, bands⟩ (new kind)) := start_eq b storable fits
  rw [started, ok_bind]
  exact takeAll_eq b fits points

/-- What is needed is told where a word holds it, and nowhere else. -/
theorem required_new_eq_iff (b : Build) :
    required b (new kind) = .ok kind.needed ↔ fitsCount kind.needed = true := by
  constructor
  · intro told
    cases kind with
    | rsi period => exact fits_of_count told
    | stochastic k d =>
      have := storable k (by simp [OscillatorKind.capacities])
      rw [fitsCount_iff, OscillatorKind.needed]
      simp only [Ring.greatestCapacity, signedLimit, greatestWord] at this ⊢
      omega
    | zScore window | percentRank window =>
      have := storable window (by simp [OscillatorKind.capacities])
      rw [fitsCount_iff, OscillatorKind.needed]
      simp only [Ring.greatestCapacity, signedLimit, greatestWord] at this ⊢
      omega
  · intro fits
    rw [required_eq (fits_new.2 fits), required_new]

end Fits

/-- **Warm-up is reported exactly**, as long as a word holds the number that is needed. Of every kind whose
rings can be stored, with any periods and bands: a new oscillator tells what it needs if and only if a word
holds it. Then it has seen nothing when it is new; after any points it is there, and needs what it needed;
its output for the last of them is a reading at the time of that point once as many inputs count as are
needed, and up to then says how many do and how many are needed, which is always less; and an oscillator,
by itself or as the entry of a bank, that has shown a reading shows readings ever after. -/
theorem warmUp_exact {kind : OscillatorKind}
    (storable : ∀ n ∈ kind.capacities, n ≤ Ring.greatestCapacity) (b : Build) (bands : Bands) :
    (required b (new kind) = .ok kind.needed ↔ fitsCount kind.needed = true) ∧
    (fitsCount kind.needed = true →
      insufficient b (new kind) = .ok (.insufficient 0 kind.needed) ∧
      (∀ points, ∃ state output, follow b kind bands points = .ok (state, output) ∧
        required b state = .ok kind.needed ∧
        let count := kind.counted (points.map (·.value))
        (∀ p, points.getLast? = some p →
          ((∃ value signal, output = .ready ⟨p.ts, value, signal, bands.zone value⟩) ↔
            kind.needed ≤ count)) ∧
        (output = .insufficient count kind.needed ↔ count < kind.needed) ∧
        (∀ seen needed, output = .insufficient seen needed →
          seen = count ∧ needed = kind.needed ∧ seen < needed) ∧
        ∀ r, output = .ready r → ∀ more, ∃ state' r',
          follow b kind bands (points ++ more) = .ok (state', .ready r')) ∧
      ∀ source (points : List Point) (e : BankEntry) r, (do points.foldlM (take b) (← start b ⟨source, kind, bands⟩)) = .ok e →
        e.output = .ready r → ∀ more : List Point, ∃ e' r', more.foldlM (take b) e = .ok e' ∧
          e'.output = .ready r') := by
  refine ⟨required_new_eq_iff storable b, fun counted => ?_⟩
  have fits := fits_new.2 counted
  obtain ⟨fresh, same, -, reported, stays, entries⟩ := reports_warmUp kind bands
  refine ⟨by rw [insufficient_eq fits, fresh], fun points => ?_, ?_⟩
  · have needs : ((new kind).follow bands points).1.Fits := by
      rw [Oscillator.Fits, same]
      exact counted
    refine ⟨((new kind).follow bands points).1, ((new kind).follow bands points).2,
      follow_eq storable fits b bands points, by rw [required_eq needs, same], ?_, ?_,
      reported points, ?_⟩
    · intro p last
      rcases follow_cases kind bands points with ⟨enough, q, value, signal, also, shown⟩ | ⟨few, shown⟩
      · cases last.symm.trans also
        exact iff_of_true ⟨value, signal, shown⟩ enough
      · rw [shown]
        exact iff_of_false (by rintro ⟨_, _, ⟨⟩⟩) (Nat.not_le_of_lt few)
    · rcases follow_cases kind bands points with ⟨enough, q, value, signal, -, shown⟩ | ⟨few, shown⟩
      · rw [shown]
        exact iff_of_false (by rintro ⟨⟩) (Nat.not_lt_of_le enough)
      · exact iff_of_true shown few
    · intro r shown more
      obtain ⟨r', later⟩ := stays points r shown more
      refine ⟨((new kind).follow bands (points ++ more)).1, r', ?_⟩
      rw [follow_eq storable fits, ← later]
  · intro source points e r taken shown more
    rw [takeAll_start_eq storable fits] at taken
    obtain rfl := Except.ok.inj taken
    have read := (BankEntry.hasRead_start ⟨source, kind, bands⟩).takeAll points
    have own : ((BankEntry.start ⟨source, kind, bands⟩ (new kind)).takeAll points).spec
        = ⟨source, kind, bands⟩ := BankEntry.spec_takeAll _ _
    obtain ⟨r', later⟩ := entries _ _ r (congrArg (·.kind) own) read shown more
    refine ⟨_, r', takeAll_eq b ?_ more, later⟩
    have state := congrArg Prod.fst read.state
    dsimp only at state
    rw [Oscillator.Fits, state, own, List.nil_append, same]
    exact counted

/-- Relative strength of period 0 needs two samples. It passes over the value that is no number, and shows
a reading for it once it has them. -/
theorem warmUp_exact_short :
    let kind := OscillatorKind.rsi 0
    let few : List Point := [⟨1, 2.0⟩, ⟨2, 0.0 / 0.0⟩]
    (∀ n ∈ kind.capacities, n ≤ Ring.greatestCapacity) ∧ required .checking (new kind) = .ok 2 ∧
    (∃ state, follow .checking kind ⟨70.0, 30.0⟩ few = .ok (state, .insufficient 1 2)) ∧
    ∃ state r, follow .checking kind ⟨70.0, 30.0⟩ (few ++ [⟨3, 3.0⟩, ⟨4, 0.0 / 0.0⟩])
      = .ok (state, .ready r) ∧ r.ts = 4 := by
  intro kind few
  have storable : ∀ n ∈ kind.capacities, n ≤ Ring.greatestCapacity := nofun
  obtain ⟨needs, fitting⟩ := warmUp_exact storable .checking ⟨70.0, 30.0⟩
  have two : fitsCount kind.needed = true := by decide
  obtain ⟨-, shown, -⟩ := fitting two
  refine ⟨storable, needs.2 two, ?_, ?_⟩
  · obtain ⟨state, output, followed, -, -, warming, -⟩ := shown few
    have one : kind.counted (few.map (·.value)) = 1 := by decide +kernel
    rw [warming.2 (by decide +kernel), one] at followed
    exact ⟨state, followed⟩
  · obtain ⟨state, output, followed, -, ready, -⟩ := shown (few ++ [⟨3, 3.0⟩, ⟨4, 0.0 / 0.0⟩])
    obtain ⟨value, signal, rfl⟩ := (ready ⟨4, 0.0 / 0.0⟩ rfl).2 (by decide +kernel)
    exact ⟨state, _, followed, rfl⟩

end FxPulse.Checked
