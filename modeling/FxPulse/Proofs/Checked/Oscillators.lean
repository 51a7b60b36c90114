import FxPulse.Checked.Oscillators
import FxPulse.Proofs.Checked.Points
import FxPulse.Proofs.Oscillator.Rsi

/-!
# `Proofs/Checked/Oscillators.lean` — rings, oscillators and banks

The capacity of a ring is never zero and the next slot is always one of its storage, which is what the
fields of `Ring` say; so no ring needs a condition, whatever has been pushed into it. The one number of an
oscillator that may be too large for a word is what relative strength needs: one sample more than its
period.

A bank reads each source on from a cursor, and the place where it goes on is among the points it is
handed even if those begin later than what has been read.
-/

set_option autoImplicit false

namespace FxPulse

namespace Ring

@[simp] theorem size_buffer (r : Ring) : r.buffer.size = r.capacity := by
  have := r.size_le
  simp only [buffer, Array.size_append, Array.size_replicate]
  omega

theorem getElem?_buffer {r : Ring} {i : Nat} (h : i < r.slots.size) : r.buffer[i]? = r.slots[i]? := by
  rw [buffer, Array.getElem?_append_left h]

theorem next_push (r : Ring) (x : Float) : (r.push x).next = (r.next + 1) % r.capacity := by
  unfold push
  split <;> rfl

/-- A push writes the next slot of the storage, whether it holds a value or not. -/
theorem buffer_push (r : Ring) (x : Float) :
    (r.push x).buffer = r.buffer.set r.next x (by simpa using r.next_lt) := by
  by_cases room : r.slots.size < r.capacity
  · have slots : (r.push x).slots = r.slots.push x := by simp only [push, room, dif_pos]
    apply Array.toList_inj.1
    obtain ⟨left, left_eq⟩ : ∃ left, r.capacity - r.slots.size = left + 1 :=
      ⟨r.capacity - r.slots.size - 1, by omega⟩
    have left_push : r.capacity - (r.slots.size + 1) = left := by omega
    simp only [buffer, slots, capacity_push, Array.size_push, left_push, left_eq, r.next_eq room,
      Array.toList_append, Array.toList_set, Array.toList_push, Array.toList_replicate,
      List.replicate_succ, List.append_assoc]
    rw [← Array.length_toList, List.set_append_right _ _ (Nat.le_refl _), Nat.sub_self,
      List.set_cons_zero, List.singleton_append]
  · have full : r.capacity - r.slots.size = 0 := by omega
    have inside : r.next < r.slots.size := Nat.lt_of_lt_of_le r.next_lt (Nat.le_of_not_lt room)
    have slots : (r.push x).slots = r.slots.set r.next x inside := by
      simp only [push, room, dif_neg, not_false_eq_true]
    simp only [buffer, slots, capacity_push, Array.size_set, full, Array.replicate_zero,
      Array.append_empty]

/-- The values of a ring stand in its storage one behind the other, from the oldest on and around the
end. -/
theorem getElem?_toList (r : Ring) {i : Nat} (h : i < r.size) :
    r.toList[i]? = r.buffer[(r.oldest + i) % r.capacity]? := by
  have next_lt := r.next_lt
  unfold size at h
  by_cases room : r.slots.size < r.capacity
  · rw [toList_of_not_full room, oldest, size, if_pos room, Nat.zero_add,
      Nat.mod_eq_of_lt (by omega), getElem?_buffer h, Array.getElem?_toList]
  · have full : r.slots.size = r.capacity := Nat.le_antisymm r.size_le (Nat.le_of_not_lt room)
    rw [toList_of_full full, oldest, size, if_neg room]
    by_cases ahead : r.next + i < r.capacity
    · rw [Nat.mod_eq_of_lt ahead, getElem?_buffer (by omega),
        List.getElem?_append_left (by simp; omega), List.getElem?_drop, Array.getElem?_toList]
    · have around : (r.next + i) % r.capacity = r.next + i - r.capacity := by
        rw [Nat.mod_eq_sub_mod (by omega), Nat.mod_eq_of_lt (by omega)]
      rw [around, getElem?_buffer (by omega), List.getElem?_append_right (by simp; omega),
        List.getElem?_take, if_pos (by simp; omega), Array.getElem?_toList, List.length_drop,
        Array.length_toList]
      congr 1
      omega

end Ring

namespace Checked

open FxPulse.Number

/-! ## Rings -/

/-- The storage and the next slot that a push computes are those of the ring behind it. -/
theorem ringPush_state (r : Ring) (x : Float) :
    write r.buffer r.next x = .ok (r.push x).buffer ∧
      remainder (r.next + 1) r.capacity = .ok (r.push x).next := by
  constructor
  · rw [write_eq (by simpa using r.next_lt), r.buffer_push]
  · rw [remainder_eq r.capacity_pos, r.next_push]

theorem ringPush_eq (r : Ring) (x : Float) : ringPush r x = .ok (r.push x) := by
  obtain ⟨written, moved⟩ := ringPush_state r x
  rw [ringPush, written, moved]
  rfl

theorem ringValues_eq (r : Ring) : ringValues r = .ok r.toList := by
  have read : ∀ i ∈ List.range r.size,
      (do element r.buffer (← remainder (r.oldest + i) r.capacity)) = .ok (r.toList.getD i 0.0) := by
    intro i mem
    have inside : (r.oldest + i) % r.capacity < r.buffer.size := by
      rw [r.size_buffer]
      exact Nat.mod_lt _ r.capacity_pos
    rw [remainder_eq r.capacity_pos, ok_bind, element_eq inside, List.getD_eq_getElem?_getD,
      r.getElem?_toList (List.mem_range.1 mem), Array.getElem?_eq_getElem inside, Option.getD_some]
  rw [ringValues, mapM_eq_ok read, ← r.length_toList]
  congr 1
  refine List.ext_getElem (by simp) fun i _ hi => ?_
  rw [List.getElem_map, List.getElem_range, List.getD_eq_getElem?_getD, List.getElem?_eq_getElem hi,
    Option.getD_some]

/-! ## Oscillators -/

theorem stochasticPush_eq (s : Stochastic) (x : Float) : stochasticPush s x = .ok (s.push x) := by
  simp only [stochasticPush, Stochastic.push, ringPush_eq, ringValues_eq, ok_bind, pure_eq_ok]
  split
  · split <;> rfl
  · rfl

theorem zScorePush_eq (s : ZScore) (x : Float) : zScorePush s x = .ok (s.push x) := by
  simp only [zScorePush, ZScore.push, ringPush_eq, ringValues_eq, ok_bind, pure_eq_ok]
  split <;> rfl

/-- A full ring holds a value, since it has room for one. -/
theorem percentRank_eq {values : Ring} (full : values.isFull = true) (x : Float) :
    percentRank values x = .ok (percentRankOf values.toList x) := by
  have some_value : 1 ≤ values.size := by
    rw [Ring.size, values.isFull_iff.1 full]
    exact values.capacity_pos
  rw [percentRank, difference_eq some_value, ok_bind, ringValues_eq, ok_bind, percentRankOf,
    List.dropLast_eq_take, List.length_take, values.length_toList,
    Nat.min_eq_left (Nat.sub_le _ _)]
  rfl

theorem percentRankPush_eq (s : PercentRank) (x : Float) :
    percentRankPush s x = .ok (s.push x) := by
  rw [percentRankPush, PercentRank.push, ringPush_eq, ok_bind]
  split
  · rename_i full
    rw [percentRank_eq full]
    rfl
  · rfl

theorem push_eq (o : Oscillator) (x : Float) : push o x = .ok (o.push x) := by
  cases o with
  | rsi s => rfl
  | stochastic s => rw [push, stochasticPush_eq]; rfl
  | zScore s => rw [push, zScorePush_eq]; rfl
  | percentRank s => rw [push, percentRankPush_eq]; rfl

end Checked

namespace Oscillator

open FxPulse.Number

/-- A word holds the number of values that an oscillator needs for its first one. -/
def Fits (o : Oscillator) : Prop := fitsCount o.required = true

instance (o : Oscillator) : Decidable o.Fits := inferInstanceAs (Decidable (_ = true))

/-- What is needed stays the same, whatever is taken in. -/
theorem required_push (o : Oscillator) (x : Float) : (o.push x).1.required = o.required := by
  cases o with
  | rsi s => exact congrArg (· + 1) (Rsi.period_push s x)
  | stochastic s =>
    unfold push Stochastic.push
    dsimp only
    split <;> exact Ring.capacity_push _ _
  | zScore s => exact Ring.capacity_push _ _
  | percentRank s => exact Ring.capacity_push _ _

theorem required_update (o : Oscillator) (p : Point) (bands : Bands) :
    (o.update p bands).1.required = o.required := by
  rw [← o.required_push p.value, update]
  obtain ⟨next, answer⟩ := o.push p.value
  cases answer <;> rfl

end Oscillator

namespace Checked

open FxPulse.Number

section Fits

variable {o : Oscillator} (fits : o.Fits) (b : Build)
include fits

theorem required_eq : required b o = .ok o.required := by
  cases o with
  | rsi s => exact count_eq fits b
  | stochastic s => rfl
  | zScore s => rfl
  | percentRank s => rfl

theorem insufficient_eq : insufficient b o = .ok o.insufficient := by
  rw [insufficient, required_eq fits]
  rfl

theorem update_eq (p : Point) (bands : Bands) : update b o p bands = .ok (o.update p bands) := by
  have next : (o.push p.value).1.Fits := by rwa [Oscillator.Fits, Oscillator.required_push]
  rw [update, push_eq, ok_bind, Oscillator.update]
  revert next
  obtain ⟨state, answer⟩ := o.push p.value
  intro next
  cases answer with
  | none =>
    dsimp only
    rw [insufficient_eq next]
    rfl
  | some value => rfl

end Fits

section Ends

variable {b : Build}

theorem required_ends (o : Oscillator) : Ends b (required b o) := by
  cases o with
  | rsi s => exact .count _
  | stochastic s => exact .ok _
  | zScore s => exact .ok _
  | percentRank s => exact .ok _

theorem insufficient_ends (o : Oscillator) : Ends b (insufficient b o) :=
  (required_ends o).bind fun _ _ => .ok _

theorem update_ends (o : Oscillator) (p : Point) (bands : Bands) : Ends b (update b o p bands) := by
  rw [update, push_eq, ok_bind]
  obtain ⟨state, answer⟩ := o.push p.value
  cases answer with
  | none => exact (insufficient_ends state).bind fun _ _ => .ok _
  | some value => exact .ok _

end Ends

/-! ## Banks -/

theorem make_storable {kind : OscillatorKind}
    (storable : ∀ n ∈ kind.capacities, n ≤ Ring.greatestCapacity) :
    (liftM (Oscillator.make kind) : Checked Oscillator) = .ok (Oscillator.new kind) := by
  rw [Oscillator.make_eq_ok_iff.2 ⟨storable, rfl⟩]
  rfl

section Fits

variable (b : Build)

theorem start_eq {spec : OscillatorSpec}
    (storable : ∀ n ∈ spec.kind.capacities, n ≤ Ring.greatestCapacity)
    (fits : (Oscillator.new spec.kind).Fits) :
    start b spec = .ok (BankEntry.start spec (Oscillator.new spec.kind)) := by
  rw [start, make_storable storable, ok_bind, insufficient_eq fits]
  rfl

theorem take_eq {e : BankEntry} (fits : e.state.Fits) (p : Point) : take b e p = .ok (e.take p) := by
  rw [take, update_eq fits]
  rfl

/-- What an entry needs stays the same, so all points are taken in where the first one is. -/
theorem takeAll_eq {e : BankEntry} (fits : e.state.Fits) (points : List Point) :
    points.foldlM (take b) e = .ok (e.takeAll points) := by
  induction points generalizing e with
  | nil => rfl
  | cons p rest ih =>
    have next : (e.take p).state.Fits := by
      rwa [Oscillator.Fits, BankEntry.take, Oscillator.required_update]
    rw [List.foldlM_cons, take_eq b fits, ok_bind, ih next]
    rfl

theorem ensure_completes (bank : Bank) {spec : OscillatorSpec}
    (storable : ∀ n ∈ spec.kind.capacities, n ≤ Ring.greatestCapacity)
    (fits : (Oscillator.new spec.kind).Fits) :
    Completes (ensure b bank spec) (bank.ensure spec) := by
  unfold ensure Bank.ensure
  split
  · exact .of_eq rfl rfl
  · refine .of_eq (by rw [start_eq b storable fits]; rfl) ?_
    rw [BankEntry.make, Oscillator.make_eq_ok_iff.2 ⟨storable, rfl⟩]
    rfl

theorem ensureAll_completes (bank : Bank) {specs : List OscillatorSpec}
    (storable : ∀ spec ∈ specs, ∀ n ∈ spec.kind.capacities, n ≤ Ring.greatestCapacity)
    (fits : ∀ spec ∈ specs, (Oscillator.new spec.kind).Fits) :
    Completes (ensureAll b bank specs) (bank.ensureAll specs) :=
  Completes.foldlM (fun acc spec mem =>
    (ensure_completes b acc.1 (storable spec mem) (fits spec mem)).bind fun _ _ => .of_eq rfl rfl) _

end Fits

/-- **Reading goes on inside the points**, wherever they begin. -/
theorem unread_eq (e : BankEntry) (points : Array Point) :
    unread e points = .ok (e.unread points) := by
  have rest : ∀ start ≤ points.size, (do return (← stretch points start points.size).toList)
      = (Except.ok (points.toList.drop start) : Checked (List Point)) := by
    intro start inside
    rw [stretch_eq inside (Nat.le_refl _), ok_bind, toList_extract_size]
    rfl
  unfold unread BankEntry.unread
  cases e.cursor with
  | none => exact rest 0 (Nat.zero_le _)
  | some c => exact rest _ (Nat.le_trans (Nat.min_le_right _ _) (Point.countBefore_le _ _ _))

section Bank

variable {provider : Provider} {checked : Source → Option Int → Checked (Option (Array Point))}

theorem readOn_eq (same : ∀ source since, checked source since = .ok (provider source since))
    {e : BankEntry} (fits : e.state.Fits) (b : Build) :
    readOn b e checked = .ok (e.takeAll (e.pending provider), (e.pending provider).length) := by
  rw [readOn, same, ok_bind, BankEntry.pending]
  cases provider e.spec.source (e.cursor.map (·.ts)) with
  | none => rfl
  | some points =>
    dsimp only
    rw [unread_eq, ok_bind, takeAll_eq b fits]
    rfl

/-- **A bank reads on from any source** that is itself read without breaking off. -/
theorem bankRefresh_eq (same : ∀ source since, checked source since = .ok (provider source since))
    {bank : Bank} (fits : ∀ e ∈ bank.entries, e.state.Fits) (b : Build) :
    bankRefresh b bank checked = .ok (bank.refresh provider) := by
  rw [bankRefresh, mapM_eq_ok fun e mem => readOn_eq same (fits e mem) b, Bank.refresh]
  simp only [ok_bind, pure_eq_ok, List.map_map, List.foldl_map, Function.comp_def]

end Bank

section Ends

variable {b : Build}

theorem start_ends {spec : OscillatorSpec}
    (storable : ∀ n ∈ spec.kind.capacities, n ≤ Ring.greatestCapacity) : Ends b (start b spec) := by
  rw [start, make_storable storable]
  exact (insufficient_ends _).bind fun _ _ => .ok _

theorem ensure_ends (bank : Bank) {spec : OscillatorSpec}
    (storable : ∀ n ∈ spec.kind.capacities, n ≤ Ring.greatestCapacity) :
    Ends b (ensure b bank spec) := by
  unfold ensure
  split
  · exact .ok _
  · exact (start_ends storable).bind fun _ _ => .ok _

theorem ensureAll_ends (bank : Bank) {specs : List OscillatorSpec}
    (storable : ∀ spec ∈ specs, ∀ n ∈ spec.kind.capacities, n ≤ Ring.greatestCapacity) :
    Ends b (ensureAll b bank specs) :=
  Ends.foldlM (fun acc spec mem => (ensure_ends acc.1 (storable spec mem)).bind fun _ _ => .ok _) _

theorem readOn_ends {checked : Source → Option Int → Checked (Option (Array Point))}
    (read : ∀ source since, Ends b (checked source since)) (e : BankEntry) :
    Ends b (readOn b e checked) := by
  refine (read _ _).bind fun found _ => ?_
  cases found with
  | none => exact .ok _
  | some points =>
    dsimp only
    rw [unread_eq, ok_bind]
    exact (Ends.foldlM (fun e p _ => (update_ends _ _ _).bind fun _ _ => .ok _) e).bind fun _ _ => .ok _

/-- **Whatever a bank holds, it reads on to an end.** -/
theorem bankRefresh_ends {checked : Source → Option Int → Checked (Option (Array Point))}
    (read : ∀ source since, Ends b (checked source since)) (bank : Bank) :
    Ends b (bankRefresh b bank checked) :=
  (Ends.mapM fun e _ => readOn_ends read e).bind fun _ _ => .ok _

end Ends

end Checked

end FxPulse
