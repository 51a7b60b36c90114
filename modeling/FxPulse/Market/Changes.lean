/-!
# `Market/Changes.lean` — percent changes by window

A short table from window label to percent change, in the order in which the labels came up. A label
for which there is no change is absent, never zero.
-/

set_option autoImplicit false

namespace FxPulse

structure Change where
  label : String
  percent : Float
deriving DecidableEq, Repr

structure Changes where
  toList : List Change
deriving DecidableEq, Repr, Inhabited

namespace Changes

def empty : Changes := ⟨[]⟩

instance : EmptyCollection Changes := ⟨empty⟩

def get? (c : Changes) (label : String) : Option Float :=
  (c.toList.find? fun change => change.label == label).map (·.percent)

/-- Puts the percentage in the first entry with the label. -/
def replaceFirst (label : String) (percent : Float) : List Change → List Change
  | [] => []
  | change :: rest =>
    if change.label == label then ⟨label, percent⟩ :: rest
    else change :: replaceFirst label percent rest

/-- A label keeps the place at which it came up first. -/
def insert (c : Changes) (label : String) (percent : Float) : Changes :=
  if c.toList.any fun change => change.label == label then ⟨replaceFirst label percent c.toList⟩
  else ⟨c.toList ++ [⟨label, percent⟩]⟩

@[simp] theorem get?_empty (label : String) : empty.get? label = none := rfl

theorem find?_replaceFirst_self {label : String} {percent : Float} {changes : List Change}
    (h : changes.any fun change => change.label == label) :
    (replaceFirst label percent changes).find? (fun change => change.label == label)
      = some ⟨label, percent⟩ := by
  induction changes with
  | nil => simp at h
  | cons change rest ih =>
    by_cases same : change.label = label
    · simp [replaceFirst, same]
    · simp only [List.any_cons, beq_eq_false_iff_ne.2 same, Bool.false_or] at h
      simp [replaceFirst, same, ih h]

theorem find?_replaceFirst_of_ne {label other : String} {percent : Float} {changes : List Change}
    (h : other ≠ label) :
    (replaceFirst label percent changes).find? (fun change => change.label == other)
      = changes.find? (fun change => change.label == other) := by
  induction changes with
  | nil => rfl
  | cons change rest ih =>
    by_cases same : change.label = label
    · simp [replaceFirst, same, h.symm]
    · by_cases found : change.label = other
      · simp [replaceFirst, found, h]
      · simp [replaceFirst, same, found, ih]

/-- A label has the percentage that was inserted last. -/
@[simp] theorem get?_insert_self (c : Changes) (label : String) (percent : Float) :
    (c.insert label percent).get? label = some percent := by
  unfold insert
  split
  · rename_i h
    simp [get?, find?_replaceFirst_self h]
  · rename_i h
    have absent : c.toList.find? (fun change => change.label == label) = none := by simpa using h
    simp [get?, List.find?_append, absent]

/-- The percentages of other labels stand. -/
theorem get?_insert_of_ne (c : Changes) {label other : String} (percent : Float)
    (h : other ≠ label) : (c.insert label percent).get? other = c.get? other := by
  unfold insert
  split
  · simp [get?, find?_replaceFirst_of_ne h]
  · simp [get?, List.find?_append, h.symm]

def size (c : Changes) : Nat := c.toList.length

def isEmpty (c : Changes) : Bool := c.toList.isEmpty

end Changes

end FxPulse
