import FxPulse.Table.Row

/-!
# `Table/Basic.lean` — the table of probabilities

Rows in the order in which they were given, with an index by symbol, trigger and direction: what is
known when a trigger has just fired.
-/

set_option autoImplicit false

namespace FxPulse

/-- What the index is by. -/
structure Slot where
  symbol : String
  trigger : String
  direction : Direction
deriving DecidableEq, Repr

namespace Slot

instance : Ord Slot :=
  ⟨compareLex (compareOn (·.symbol)) (compareLex (compareOn (·.trigger)) (compareOn (·.direction)))⟩

instance : Std.TransOrd Slot :=
  inferInstanceAs (Std.TransCmp (compareLex _ _))

instance : Std.LawfulEqOrd Slot where
  eq_of_compare {a b} h := by
    have ⟨symbol, rest0⟩ := compareLex_eq_eq.1 h
    have ⟨trigger, last⟩ := compareLex_eq_eq.1 rest0
    have symbol : a.symbol = b.symbol := Std.LawfulEqOrd.eq_of_compare symbol
    have trigger : a.trigger = b.trigger := Std.LawfulEqOrd.eq_of_compare trigger
    have direction : a.direction = b.direction := Std.LawfulEqOrd.eq_of_compare last
    cases a
    cases b
    simp_all

end Slot

def Row.slot (r : Row) : Slot := ⟨r.symbol, r.key.trigger, r.key.direction⟩

/-- The places of the rows of each slot, in row order. -/
abbrev SlotIndex := Std.ExtTreeMap Slot (Array Nat)

structure Table where
  rows : Array Row
  index : SlotIndex

namespace Table

/-- Enters the row at one place. -/
def enter (index : SlotIndex) (entry : Row × Nat) : SlotIndex :=
  index.insert entry.1.slot ((index.getD entry.1.slot #[]).push entry.2)

def ofRows (rows : List Row) : Table := ⟨rows.toArray, rows.zipIdx.foldl enter ∅⟩

instance : EmptyCollection Table := ⟨ofRows []⟩

def size (t : Table) : Nat := t.rows.size

def isEmpty (t : Table) : Bool := t.rows.isEmpty

/-- The best rows first; among equals the order of the table stands. -/
def ranked (t : Table) : List Row :=
  t.rows.toList.mergeSort fun a b => (Row.ranking a b).isLE

def forSymbol (t : Table) (symbol : String) : List Row :=
  t.rows.toList.filter fun r => r.symbol == symbol

/-- The rows for a trigger that has fired, of all outcomes and states. -/
def candidates (t : Table) (slot : Slot) : List Row :=
  (t.index.getD slot #[]).toList.filterMap fun place => t.rows[place]?

end Table

end FxPulse
