import FxPulse.History.Moves
import FxPulse.Proofs.History.Lookup
import FxPulse.Proofs.History.TickStore

/-!
# `Proofs/History/Moves.lean` — which windows have a percentage

A window is measured against what a look-up finds one length before the newest point. The look-up always
finds something, if need be the earliest point or the newest itself, so what is left out is left out
afterwards: a reference that is no older than the newest point, and one that is zero. Of several windows
with one label the last that is measured stands, and it need not be the last one.

> A label has the percentage of its last window whose reference is older than the newest point and not zero,
> and none exactly if it has no such window (`get?_ofPoints_eq_some_iff`, `get?_ofPoints_eq_none_iff`).

Prices are measured where they lie, in two runs if a ring has wrapped around, and not in a copy. That this
comes to the same is `Runs.changes_eq`.
-/

set_option autoImplicit false

namespace FxPulse

namespace Point

/-- What a time refers to: the point last written up to it, or the earliest of points that are all later. -/
def IsReference (points : List Point) (ts : Int) (p : Point) : Prop :=
  IsLastUpTo points ts p ∨ (∀ q ∈ points, ts < q.ts) ∧ points.head? = some p

theorem atOrBefore?_eq_some_iff {points : Array Point} (sorted : Ordered points.toList) {ts : Int}
    {p : Point} : atOrBefore? points ts = some p ↔ IsReference points.toList ts p := by
  have uncovered : covering? points ts = none ↔ ∀ q ∈ points.toList, ts < q.ts :=
    covering?_eq_none_iff sorted
  rw [IsReference, isLastUpTo_iff sorted, ← covering?_eq sorted, atOrBefore?_eq sorted, ← uncovered,
    ← Array.getElem?_toList, ← List.head?_eq_getElem?]
  cases covering? points ts with
  | none => simp
  | some q => simp

theorem IsReference.mem {points : List Point} {ts : Int} {p : Point} (h : IsReference points ts p) :
    p ∈ points := by
  obtain ⟨front, back, rfl, -⟩ | ⟨-, first⟩ := h
  · exact List.mem_append_right _ List.mem_cons_self
  · exact List.mem_of_head? first

/-- A time before the newest point refers to an older point as soon as there is one. -/
theorem IsReference.older {points : List Point} (sorted : Ordered points) {ts newest : Int} {p q : Point}
    (h : IsReference points ts p) (before : ts < newest) (mem : q ∈ points) (older : q.ts < newest) :
    p.ts < newest := by
  obtain ⟨-, -, -, upTo, -⟩ | ⟨-, first⟩ := h
  · exact Int.lt_of_le_of_lt upTo before
  · -- The earliest point is no later than the older one.
    obtain ⟨rest, rfl⟩ : ∃ rest, points = p :: rest := by
      cases points with
      | nil => cases first
      | cons first' rest => exact ⟨rest, by rw [← Option.some.inj first]⟩
    rcases List.mem_cons.1 mem with rfl | behind
    · exact older
    · exact Int.lt_of_le_of_lt ((List.pairwise_cons.1 sorted).1 q behind) older

end Point

namespace Changes

open FxPulse.Point (IsReference Ordered)

/-! ## One window -/

/-- The move over a window in percent: of the newest point against the one that the time one length before
it refers to, which is older and not zero. -/
def IsMove (points : List Point) (w : Window) (percent : Float) : Prop :=
  ∃ newest reference, points.getLast? = some newest ∧
    IsReference points (newest.ts - w.length) reference ∧
    reference.ts < newest.ts ∧ (reference.value == 0.0) = false ∧
    percent = (newest.value - reference.value) / reference.value * 100.0

/-- The change over a window, if it can be measured. -/
def over? (current : Point) (reference? : Int → Option Point) (w : Window) : Option Float :=
  (reference? (current.ts - w.length)).bind (percent? current)

theorem percent?_eq_some_iff {current reference : Point} {percent : Float} :
    percent? current reference = some percent ↔
      reference.ts < current.ts ∧ (reference.value == 0.0) = false ∧
        percent = (current.value - reference.value) / reference.value * 100.0 := by
  unfold percent?
  by_cases older : reference.ts < current.ts
  · cases zero : reference.value == 0.0 with
    | true => simp
    | false => simp [older, eq_comm]
  · simp [older, Int.not_lt.1 older]

theorem over?_eq_some_iff {points : Array Point} (sorted : Ordered points.toList) {current : Point}
    (newest : points.back? = some current) {w : Window} {percent : Float} :
    over? current (Point.atOrBefore? points) w = some percent ↔ IsMove points.toList w percent := by
  rw [← Array.getLast?_toList] at newest
  rw [over?, Option.bind_eq_some_iff, IsMove]
  constructor
  · rintro ⟨reference, found, measured⟩
    exact ⟨current, reference, newest, (Point.atOrBefore?_eq_some_iff sorted).1 found,
      percent?_eq_some_iff.1 measured⟩
  · rintro ⟨last, reference, same, found, measured⟩
    obtain rfl : current = last := Option.some.inj (newest.symm.trans same)
    exact ⟨reference, (Point.atOrBefore?_eq_some_iff sorted).2 found, percent?_eq_some_iff.2 measured⟩

/-! ## All windows -/

/-- Whether a window has a label and can be measured. -/
def isMeasured (current : Point) (reference? : Int → Option Point) (label : String) (w : Window) : Bool :=
  w.label == label && (over? current reference? w).isSome

theorem measure_concat (current : Point) (reference? : Int → Option Point) (windows : List Window)
    (w : Window) :
    measure current reference? (windows ++ [w]) = match over? current reference? w with
      | some percent => (measure current reference? windows).insert w.label percent
      | none => measure current reference? windows := by
  rw [measure, List.foldl_append]
  rfl

/-- **A label has the change over its last window that can be measured.** -/
theorem get?_measure (current : Point) (reference? : Int → Option Point) (windows : List Window)
    (label : String) :
    (measure current reference? windows).get? label
      = (windows.reverse.find? (isMeasured current reference? label)).bind (over? current reference?) := by
  induction windows using List.reverseRecOn with
  | nil => rfl
  | append_singleton front w ih =>
    rw [measure_concat, List.reverse_append, List.reverse_singleton, List.singleton_append,
      List.find?_cons, isMeasured]
    cases measured : over? current reference? w with
    | none => simpa using ih
    | some percent =>
      by_cases own : w.label = label
      · simp [own, measured]
      · rw [get?_insert_of_ne _ _ (Ne.symm own), beq_eq_false_iff_ne.2 own]
        exact ih

/-- No window is measured where there are no points. -/
theorem not_isMove_of_back? {points : Array Point} (empty : points.back? = none) (w : Window)
    (percent : Float) : ¬ IsMove points.toList w percent := by
  rintro ⟨newest, -, last, -⟩
  rw [Array.getLast?_toList, empty] at last
  cases last

section Measured

variable {points : Array Point} (sorted : Ordered points.toList)
include sorted

theorem isMeasured_iff {current : Point} (newest : points.back? = some current) (label : String)
    (w : Window) : isMeasured current (Point.atOrBefore? points) label w = true ↔
      w.label = label ∧ ∃ percent, IsMove points.toList w percent := by
  rw [isMeasured, Bool.and_eq_true, beq_iff_eq, Option.isSome_iff_exists]
  simp only [over?_eq_some_iff sorted newest]

theorem get?_ofPoints_eq_some_iff (windows : List Window) (label : String) (percent : Float) :
    (ofPoints points windows).get? label = some percent ↔
      ∃ front w back, windows = front ++ w :: back ∧ w.label = label ∧ IsMove points.toList w percent ∧
        ∀ v ∈ back, v.label = label → ∀ other, ¬ IsMove points.toList v other := by
  unfold ofPoints
  cases newest : points.back? with
  | none =>
    refine iff_of_false nofun ?_
    rintro ⟨-, w, -, -, -, move, -⟩
    exact not_isMove_of_back? newest w percent move
  | some current =>
    dsimp only
    rw [get?_measure, Option.bind_eq_some_iff]
    simp only [find?_reverse_eq_some_iff, over?_eq_some_iff sorted newest, ← Bool.not_eq_true,
      isMeasured_iff sorted newest, not_and, not_exists]
    constructor
    · rintro ⟨w, ⟨⟨own, -⟩, front, back, split, last⟩, move⟩
      exact ⟨front, w, back, split, own, move, last⟩
    · rintro ⟨front, w, back, split, own, move, last⟩
      exact ⟨w, ⟨⟨own, percent, move⟩, front, back, split, last⟩, move⟩

theorem get?_ofPoints_eq_none_iff (windows : List Window) (label : String) :
    (ofPoints points windows).get? label = none ↔
      ∀ w ∈ windows, w.label = label → ∀ percent, ¬ IsMove points.toList w percent := by
  unfold ofPoints
  cases newest : points.back? with
  | none => exact iff_of_true rfl fun w _ _ => not_isMove_of_back? newest w
  | some current =>
    dsimp only
    rw [get?_measure]
    have measured : ∀ w, isMeasured current (Point.atOrBefore? points) label w = true →
        over? current (Point.atOrBefore? points) w ≠ none := by
      intro w passes
      rw [isMeasured, Bool.and_eq_true] at passes
      exact Option.isSome_iff_ne_none.1 passes.2
    constructor
    · intro absent w mem own percent move
      obtain ⟨last, found⟩ : ∃ last,
          windows.reverse.find? (isMeasured current (Point.atOrBefore? points) label) = some last := by
        rw [← Option.isSome_iff_exists, List.find?_isSome]
        exact ⟨w, List.mem_reverse.2 mem, (isMeasured_iff sorted newest label w).2 ⟨own, percent, move⟩⟩
      rw [found] at absent
      exact measured last (List.find?_some found) absent
    · intro absent
      rw [List.find?_eq_none.2, Option.bind_none]
      intro w mem passes
      obtain ⟨own, percent, move⟩ := (isMeasured_iff sorted newest label w).1 passes
      exact absent w (List.mem_reverse.1 mem) own percent move

/-- Backwards in time and with no zeros, every window has a move as soon as there is an older point. -/
theorem exists_isMove {w : Window} (backwards : 0 < w.length)
    (nonzero : ∀ p ∈ points.toList, (p.value == 0.0) = false) {newest p : Point}
    (last : points.toList.getLast? = some newest) (mem : p ∈ points.toList) (older : p.ts < newest.ts) :
    ∃ percent, IsMove points.toList w percent := by
  obtain ⟨reference, found⟩ :
      ∃ reference, Point.atOrBefore? points (newest.ts - w.length) = some reference := by
    rw [← Option.ne_none_iff_exists', ne_eq, Point.atOrBefore?_eq_none_iff]
    rintro rfl
    cases mem
  rw [Point.atOrBefore?_eq_some_iff sorted] at found
  exact ⟨_, newest, reference, last, found, found.older sorted (by omega) mem older,
    nonzero reference found.mem, rfl⟩

end Measured

end Changes

/-! ## Where the prices lie -/

namespace Runs

def latest? (r : Runs) : Option Point := r.back.back?.or r.front.back?

/-- The changes up to the last point of two runs, nothing of which is copied. -/
def changes (r : Runs) (windows : List Window) : Changes :=
  match r.latest? with
  | some current => Changes.measure current r.atOrBefore? windows
  | none => ∅

theorem latest?_eq (r : Runs) : r.latest? = r.points.back? := by
  rw [latest?, points, Array.back?_append]

theorem changes_eq {r : Runs} (sorted : Point.Ordered r.points.toList) (windows : List Window) :
    r.changes windows = Changes.ofPoints r.points windows := by
  have found : r.atOrBefore? = Point.atOrBefore? r.points := funext (atOrBefore?_eq sorted)
  unfold changes Changes.ofPoints
  rw [latest?_eq]
  cases r.points.back? with
  | none => rfl
  | some current => rw [found]

end Runs

/-- The changes of an instrument are those of a copy of its points, and it has none without a copy. -/
theorem TickStore.changes_eq_snapshot (s : TickStore) (windows : List Window) (instrument : String) :
    s.changes windows instrument = match s.snapshot instrument with
      | .ok points => Changes.ofPoints points windows
      | .error _ => ∅ := by
  rw [TickStore.changes, snapshot, find]
  cases s.read? instrument <;> rfl

open Point (Ordered) in
/-- **Percent changes are those of a copy, and leave out exactly what they must.** After any ticks, whatever
the retention: the changes of an instrument are those of its snapshot, none if there is no snapshot, and
those of its series where it lies, wherever its second run begins. For points in order of time: a label has
the percentage of its last window whose reference, the point at or before one length back from the newest,
is older than the newest and not zero, and it has none exactly if it has no such window. So where all
windows are backwards in time and no point is zero, all labels are there if some point is older than the
newest one, and otherwise none is. -/
theorem Changes.measured_exactly (windows : List Window) :
    (∀ (retention : Int) (ticks : List Tick) (instrument : String),
      let s := (TickStore.new retention).addAll ticks
      (s.changes windows instrument = match s.snapshot instrument with
        | .ok points => ofPoints points windows
        | .error _ => ∅) ∧
      ∀ series, s.read? instrument = some series → ∀ r : Runs, r.points = series.points →
        r.changes windows = s.changes windows instrument) ∧
    ∀ points : Array Point, Ordered points.toList →
      (∀ label percent, (ofPoints points windows).get? label = some percent ↔
        ∃ front w back, windows = front ++ w :: back ∧ w.label = label ∧
          IsMove points.toList w percent ∧
          ∀ v ∈ back, v.label = label → ∀ other, ¬ IsMove points.toList v other) ∧
      (∀ label, (ofPoints points windows).get? label = none ↔
        ∀ w ∈ windows, w.label = label → ∀ percent, ¬ IsMove points.toList w percent) ∧
      ((∀ w ∈ windows, 0 < w.length) → (∀ p ∈ points.toList, (p.value == 0.0) = false) →
        ∀ newest, points.toList.getLast? = some newest →
          ((∃ p ∈ points.toList, p.ts < newest.ts) →
            ∀ w ∈ windows, ((ofPoints points windows).get? w.label).isSome = true) ∧
          ((¬ ∃ p ∈ points.toList, p.ts < newest.ts) →
            ∀ label, (ofPoints points windows).get? label = none)) := by
  refine ⟨?_, ?_⟩
  · intro retention ticks instrument s
    refine ⟨s.changes_eq_snapshot windows instrument, ?_⟩
    intro series found r same
    have sorted := TickStore.addAll_allOrdered (s := TickStore.new retention)
      Series.allOrdered_empty ticks
    have kept : Ordered r.points.toList := by
      rw [same]
      exact TickStore.read?_ordered sorted found
    rw [Runs.changes_eq kept, TickStore.changes, found, same]
  · intro points sorted
    refine ⟨get?_ofPoints_eq_some_iff sorted windows, get?_ofPoints_eq_none_iff sorted windows, ?_⟩
    intro backwards nonzero newest last
    constructor
    · intro history w hw
      obtain ⟨p, mem, older⟩ := history
      rw [Option.isSome_iff_ne_none, ne_eq, get?_ofPoints_eq_none_iff sorted]
      intro absent
      obtain ⟨percent, move⟩ := exists_isMove sorted (backwards w hw) nonzero last mem older
      exact absent w hw rfl percent move
    · intro young label
      rw [get?_ofPoints_eq_none_iff sorted]
      intro w hw own percent move
      obtain ⟨current, reference, same, found, older, -⟩ := move
      obtain rfl : newest = current := Option.some.inj (last.symm.trans same)
      exact young ⟨reference, found.mem, older⟩

/-- Two points in different runs, with a label for two windows of which the later one reaches back to the
newest point, as the window of another label does. -/
theorem Changes.measured_exactly_repeated :
    let windows : List Window := [⟨"1h", 3600000⟩, ⟨"1h", 0⟩, ⟨"now", 0⟩]
    let r : Runs := ⟨#[⟨0, 100.0⟩], #[⟨60000, 121.0⟩]⟩
    let s := (TickStore.new 86400000).addAll
      [⟨"EURUSD", 100.0, 100.0, 0⟩, ⟨"EURUSD", 121.0, 121.0, 60000⟩]
    Point.Ordered r.points.toList ∧
    (∃ series, s.read? "EURUSD" = some series ∧ r.points = series.points) ∧
    r.changes windows = s.changes windows "EURUSD" ∧
    (r.changes windows).toList = [⟨"1h", 21.0⟩] ∧
    (∀ w ∈ windows, w.label = "now" → ∀ percent, ¬ IsMove r.points.toList w percent) ∧
    ∀ w ∈ windows.take 1, ((ofPoints r.points (windows.take 1)).get? w.label).isSome = true := by
  intro windows r s
  have sorted : Point.Ordered r.points.toList := by
    unfold Point.Ordered
    decide
  have held : (s.read? "EURUSD").map (·.points) = some r.points := by decide +kernel
  obtain ⟨series, found, same⟩ := Option.map_eq_some_iff.1 held
  obtain ⟨stores, lists⟩ := measured_exactly windows
  have inPlace := (stores 86400000 _ "EURUSD").2 series found r same.symm
  obtain ⟨-, absent, -⟩ := lists r.points sorted
  obtain ⟨-, -, complete⟩ := (measured_exactly (windows.take 1)).2 r.points sorted
  obtain ⟨present, -⟩ := complete (by decide) (by decide +kernel) ⟨60000, 121.0⟩ (by decide +kernel)
  refine ⟨sorted, ⟨series, found, same.symm⟩, inPlace, by decide +kernel, ?_, ?_⟩
  · exact (absent "now").1 (by decide +kernel)
  · exact present ⟨⟨0, 100.0⟩, by decide +kernel, by decide⟩

end FxPulse
