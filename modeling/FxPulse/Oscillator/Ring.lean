import FxPulse.Failure
import FxPulse.Number.Word

/-!
# `Oscillator/Ring.lean` — the last few values

A ring holds the newest values of a sequence, as many as its capacity. Slots are added as values come
in; once there are as many as the capacity, a new value is written over the oldest, so nothing is ever
moved. `toList` is what a ring stands for: its values, oldest first.
-/

set_option autoImplicit false

namespace FxPulse

open FxPulse.Number

structure Ring where
  capacity : Nat
  slots : Array Float
  /-- The slot that is written next. Once the ring is full it holds the oldest value. -/
  next : Nat
  size_le : slots.size ≤ capacity
  next_lt : next < capacity
  /-- Until the ring is full it is filled from the first slot on. -/
  next_eq : slots.size < capacity → next = slots.size

namespace Ring

/-- A ring has room for at least one value. -/
def new (capacity : Nat) : Ring where
  capacity := max capacity 1
  slots := #[]
  next := 0
  size_le := Nat.zero_le _
  next_lt := by omega
  next_eq _ := rfl

/-- Storage is counted in bytes by a signed word, and a slot takes eight of them. -/
def greatestCapacity : Nat := (signedLimit - 1) / 8

/-- A new ring of a capacity for which there can be storage. -/
def make (capacity : Nat) : Except Fault Ring :=
  if capacity ≤ greatestCapacity then .ok (new capacity) else .error (.ringTooLarge capacity)

def size (r : Ring) : Nat := r.slots.size

def isFull (r : Ring) : Bool := r.size == r.capacity

def isEmpty (r : Ring) : Bool := r.size == 0

def push (r : Ring) (x : Float) : Ring :=
  have capacity_pos := Nat.lt_of_le_of_lt (Nat.zero_le _) r.next_lt
  if h : r.slots.size < r.capacity then
    { capacity := r.capacity
      slots := r.slots.push x
      next := (r.next + 1) % r.capacity
      size_le := by simp only [Array.size_push]; omega
      next_lt := Nat.mod_lt _ capacity_pos
      next_eq := fun room => by
        simp only [Array.size_push] at room ⊢
        rw [r.next_eq h, Nat.mod_eq_of_lt room] }
  else
    { capacity := r.capacity
      slots := r.slots.set r.next x (Nat.lt_of_lt_of_le r.next_lt (Nat.le_of_not_lt h))
      next := (r.next + 1) % r.capacity
      size_le := by simpa only [Array.size_set] using r.size_le
      next_lt := Nat.mod_lt _ capacity_pos
      next_eq := fun room => absurd (by simpa only [Array.size_set] using room) h }

/-- The values held, oldest first. -/
def toList (r : Ring) : List Float :=
  let oldest := if r.isFull then r.next else 0
  r.slots.toList.drop oldest ++ r.slots.toList.take oldest

/-- The newest value, which stands in the slot before the next. -/
def last? (r : Ring) : Option Float := r.slots[(r.next + r.capacity - 1) % r.capacity]?

/-! ## The operations, as seen through `toList` -/

theorem capacity_pos (r : Ring) : 0 < r.capacity := Nat.lt_of_le_of_lt (Nat.zero_le _) r.next_lt

theorem isFull_iff (r : Ring) : r.isFull = true ↔ r.slots.size = r.capacity := by
  simp only [isFull, size, beq_iff_eq]

@[simp] theorem capacity_new (n : Nat) : (new n).capacity = max n 1 := rfl

@[simp] theorem capacity_push (r : Ring) (x : Float) : (r.push x).capacity = r.capacity := by
  unfold push
  split <;> rfl

@[simp] theorem length_toList (r : Ring) : r.toList.length = r.size := by
  simp only [toList, size, List.length_append, List.length_drop, List.length_take,
    Array.length_toList]
  omega

@[simp] theorem toList_new (n : Nat) : (new n).toList = [] := by
  simp only [toList, new, List.drop_nil, List.take_nil, List.append_nil]

@[simp] theorem last?_new (n : Nat) : (new n).last? = none := rfl

theorem make_eq_ok_iff {capacity : Nat} {r : Ring} :
    make capacity = .ok r ↔ capacity ≤ greatestCapacity ∧ new capacity = r := by
  unfold make
  by_cases h : capacity ≤ greatestCapacity
  · simp only [h, if_true, Except.ok.injEq, true_and]
  · simp only [h, if_false, reduceCtorEq, false_and]

/-- Until the ring is full its slots are in order. -/
theorem toList_of_not_full {r : Ring} (h : r.slots.size < r.capacity) :
    r.toList = r.slots.toList := by
  have notFull : r.isFull = false := by
    rw [← Bool.not_eq_true, isFull_iff]
    omega
  simp [toList, notFull]

theorem toList_of_full {r : Ring} (h : r.slots.size = r.capacity) :
    r.toList = r.slots.toList.drop r.next ++ r.slots.toList.take r.next := by
  simp only [toList, r.isFull_iff.2 h, if_true]

/-- Overwriting a value turns the list behind it to the front, and the value to the end. -/
theorem rotate_set {values : List Float} {i : Nat} (x : Float) (h : i < values.length) :
    (values.set i x).drop (i + 1) ++ (values.set i x).take (i + 1)
      = (values.drop i ++ values.take i).drop 1 ++ [x] := by
  have last : (values.set i x).take (i + 1) = values.take i ++ [x] := by
    rw [List.take_succ_eq_append_getElem (by simpa using h), List.take_set_of_le (Nat.le_refl i),
      List.getElem_set_self]
  rw [List.drop_set_of_lt (Nat.lt_succ_self i), last, List.drop_append_of_le_length (by simp; omega),
    List.drop_drop, List.append_assoc]

/-- A full ring drops its oldest value for a new one; any other ring drops none. -/
theorem toList_push (r : Ring) (x : Float) :
    (r.push x).toList = (if r.isFull then r.toList.drop 1 else r.toList) ++ [x] := by
  have next_lt := r.next_lt
  have size_le := r.size_le
  by_cases room : r.slots.size < r.capacity
  · have notFull : r.isFull = false := by
      rw [← Bool.not_eq_true, isFull_iff]
      omega
    have slots : (r.push x).slots = r.slots.push x := by simp only [push, room, dif_pos]
    have next : (r.push x).next = (r.next + 1) % r.capacity := by simp only [push, room, dif_pos]
    have values : (r.push x).toList = (r.push x).slots.toList := by
      by_cases full : (r.push x).slots.size = (r.push x).capacity
      · have : r.next + 1 = r.capacity := by
          rw [slots, capacity_push, Array.size_push] at full
          rw [r.next_eq room, full]
        rw [toList_of_full full, next, this, Nat.mod_self, List.drop_zero, List.take_zero,
          List.append_nil]
      · exact toList_of_not_full (Nat.lt_of_le_of_ne (r.push x).size_le full)
    rw [values, slots, notFull, toList_of_not_full room]
    simp only [Array.toList_push, Bool.false_eq_true, if_false]
  · have full : r.slots.size = r.capacity := by omega
    have inside : r.next < r.slots.toList.length := by rw [Array.length_toList]; omega
    have slots : (r.push x).slots.toList = r.slots.toList.set r.next x := by
      simp only [push, room, dif_neg, not_false_eq_true, Array.toList_set]
    have next : (r.push x).next = (r.next + 1) % r.capacity := by
      simp only [push, room, dif_neg, not_false_eq_true]
    have full' : (r.push x).slots.size = (r.push x).capacity := by
      rw [← Array.length_toList, slots, List.length_set, Array.length_toList, capacity_push, full]
    rw [toList_of_full full', toList_of_full full, r.isFull_iff.2 full, slots, next, if_pos rfl,
      ← rotate_set x inside]
    by_cases whole : r.next + 1 = r.capacity
    · -- The last slot was written, and the oldest value is in the first.
      rw [whole, Nat.mod_self, List.drop_zero, List.take_zero, List.append_nil,
        List.drop_of_length_le (by simp [full]), List.take_of_length_le (by simp [full]),
        List.nil_append]
    · rw [Nat.mod_eq_of_lt (by omega)]

theorem last?_push (r : Ring) (x : Float) : (r.push x).last? = some x := by
  have next_lt := r.next_lt
  have newest : ((r.next + 1) % r.capacity + r.capacity - 1) % r.capacity = r.next := by
    by_cases whole : r.next + 1 = r.capacity
    · rw [whole, Nat.mod_self, Nat.zero_add, Nat.mod_eq_of_lt (by omega)]
      omega
    · rw [Nat.mod_eq_of_lt (show r.next + 1 < r.capacity by omega),
        show r.next + 1 + r.capacity - 1 = r.next + r.capacity by omega, Nat.add_mod_right,
        Nat.mod_eq_of_lt next_lt]
  unfold push last?
  split
  · rename_i room
    simp only [newest]
    rw [r.next_eq room, Array.getElem?_push_size]
  · simp only [newest, Array.getElem?_set_self]

end Ring

end FxPulse
