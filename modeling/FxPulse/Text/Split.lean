import FxPulse.Text.Blank

/-!
# `Text/Split.lean` — cutting at a separator

Lists in settings, state keys, paths and lines are all cut at one separating character or byte, and a
text has its first line cut off.
-/

set_option autoImplicit false

namespace FxPulse.Text

variable {α : Type} [BEq α]

/-- The pieces between separators: one more than there are separators, so a text without any is one
piece and the empty text is one empty piece. -/
def pieces (separator : α) : List α → List (List α)
  | [] => [[]]
  | c :: rest =>
    if c == separator then [] :: pieces separator rest
    else match pieces separator rest with
      | piece :: more => (c :: piece) :: more
      | [] => [[c]]

theorem pieces_ne_nil (separator : α) (text : List α) : pieces separator text ≠ [] := by
  cases text with
  | nil => simp [pieces]
  | cons c rest =>
    unfold pieces
    split
    · simp
    · split <;> simp

section Pieces

variable [LawfulBEq α] {separator : α}

/-- A text without separators is one piece. -/
theorem pieces_of_not_mem {text : List α} (h : separator ∉ text) : pieces separator text = [text] := by
  induction text with
  | nil => rfl
  | cons c rest ih =>
    simp only [List.mem_cons, not_or] at h
    simp [pieces, Ne.symm h.1, ih h.2]

/-- The first separator ends the first piece. -/
theorem pieces_append_cons {front behind : List α} (h : separator ∉ front) :
    pieces separator (front ++ separator :: behind) = front :: pieces separator behind := by
  induction front with
  | nil => simp [pieces]
  | cons c rest ih =>
    simp only [List.mem_cons, not_or] at h
    simp [pieces, Ne.symm h.1, ih h.2]

/-- No piece holds a separator. -/
theorem not_mem_of_mem_pieces {text piece : List α} (h : piece ∈ pieces separator text) :
    separator ∉ piece := by
  induction text generalizing piece with
  | nil => simp_all [pieces]
  | cons c rest ih =>
    by_cases same : c = separator
    · simp only [pieces, same, beq_self_eq_true, if_true, List.mem_cons] at h
      rcases h with rfl | h
      · simp
      · exact ih h
    · simp only [pieces, beq_iff_eq, same, if_false] at h
      split at h
      · rename_i first more rest_pieces
        rcases List.mem_cons.1 h with rfl | h
        · simpa [Ne.symm same] using ih (by simp [rest_pieces])
        · exact ih (by simp [rest_pieces, h])
      · rename_i none
        exact absurd none (pieces_ne_nil separator rest)

end Pieces

/-- What stands before the first separator and what stands behind it. -/
def cut? (separator : α) : List α → Option (List α × List α)
  | [] => none
  | c :: rest =>
    if c == separator then some ([], rest)
    else (cut? separator rest).map fun (before, behind) => (c :: before, behind)

section Cut

variable [LawfulBEq α] {separator : α}

/-- A cut is made at the first separator, and loses nothing but the separator. -/
theorem cut?_eq_some_iff {text before behind : List α} :
    cut? separator text = some (before, behind)
      ↔ text = before ++ separator :: behind ∧ separator ∉ before := by
  induction text generalizing before with
  | nil => simp [cut?]
  | cons c rest ih =>
    by_cases same : c = separator
    · cases before with
      | nil => simp [cut?, same, eq_comm]
      | cons d front =>
        simp only [cut?, same, beq_self_eq_true, if_true, List.cons_append, List.cons.injEq,
          List.mem_cons, not_or, Option.some.injEq, Prod.mk.injEq, reduceCtorEq, false_and, false_iff]
        rintro ⟨⟨first, _⟩, other, _⟩
        exact other first
    · cases before with
      | nil => simp [cut?, same]
      | cons d front =>
        simp only [cut?, beq_iff_eq, same, if_false, Option.map_eq_some_iff, Prod.mk.injEq,
          List.cons.injEq, List.cons_append, List.mem_cons, not_or]
        constructor
        · rintro ⟨⟨front', behind'⟩, found, ⟨rfl, rfl⟩, rfl⟩
          have ⟨whole, clean⟩ := ih.1 found
          exact ⟨⟨rfl, whole⟩, Ne.symm same, clean⟩
        · rintro ⟨⟨rfl, whole⟩, _, clean⟩
          exact ⟨(front, behind), ih.2 ⟨whole, clean⟩, ⟨rfl, rfl⟩, rfl⟩

end Cut

/-- The first line of a text, without the line feed that ends it, or the carriage return and the line
feed. -/
def firstLine (text : String) : String :=
  let line := text.toList.takeWhile (· != '\n')
  String.ofList (if line.getLast? == some '\r' then line.dropLast else line)

/-- The items of a list set off by commas, without padding; empty items do not count. -/
def items (text : String) : List String :=
  (pieces ',' text.toList).filterMap fun piece =>
    let item := trimChars piece
    if item.isEmpty then none else some (String.ofList item)

end FxPulse.Text
