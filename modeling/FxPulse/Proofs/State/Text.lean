import FxPulse.Market.Direction
import FxPulse.Proofs.Failure
import FxPulse.Proofs.State.Levels
import FxPulse.State.Spec

/-!
# `Proofs/State/Text.lean` — keys that survive being written down

A state key is kept as text, and two keys with one text are one key to whoever keeps them. Names and
values that are not empty and hold neither `=` nor `;` are safe from that, and no others are:

> a key is read back from its text exactly if it is well formed (`ofText_text_iff`).

What is computed from closes is well formed, and so is every coarser key.
-/

set_option autoImplicit false

namespace FxPulse

namespace Text

/-- Pieces that are joined by a separator none of them holds come apart again. -/
theorem pieces_intercalate {α : Type} [BEq α] [LawfulBEq α] {separator : α} {l : List (List α)}
    (some_piece : l ≠ []) (clean : ∀ piece ∈ l, separator ∉ piece) :
    pieces separator ([separator].intercalate l) = l := by
  induction l with
  | nil => exact absurd rfl some_piece
  | cons piece rest ih =>
    obtain ⟨first, later⟩ := List.forall_mem_cons.1 clean
    cases rest with
    | nil => simpa [List.intercalate] using pieces_of_not_mem first
    | cons next more =>
      have joined : [separator].intercalate (piece :: next :: more)
          = piece ++ separator :: [separator].intercalate (next :: more) := by
        simp [List.intercalate]
      rw [joined, pieces_append_cons first, ih (List.cons_ne_nil _ _) later]

end Text

namespace Direction

theorem ofText_text (d : Direction) : ofText d.text = .ok d := by
  cases d <;> rfl

theorem text_injective : Function.Injective text := by
  intro a b same
  have read := congrArg ofText same
  rw [ofText_text, ofText_text] at read
  exact Except.ok.inj read

end Direction

namespace StatePart

/-- Neither name nor value is empty or holds a separator. -/
structure WellFormed (p : StatePart) : Prop where
  name : p.name ≠ ""
  value : p.value ≠ ""
  clean : ∀ c ∈ p.name.toList ++ p.value.toList, c ≠ '=' ∧ c ≠ ';'

instance (p : StatePart) : Decidable p.WellFormed :=
  -- Over the characters of the part, not over all characters there are.
  have : Decidable (∀ c ∈ p.name.toList ++ p.value.toList, c ≠ '=' ∧ c ≠ ';') :=
    List.decidableBAll _ _
  decidable_of_iff (p.name ≠ "" ∧ p.value ≠ "" ∧
      ∀ c ∈ p.name.toList ++ p.value.toList, c ≠ '=' ∧ c ≠ ';')
    ⟨fun h => ⟨h.1, h.2.1, h.2.2⟩, fun h => ⟨h.name, h.value, h.clean⟩⟩

theorem toList_text (p : StatePart) : p.text.toList = p.name.toList ++ '=' :: p.value.toList := by
  rw [text, String.toList_append, String.toList_append, List.append_assoc]
  rfl

/-- **A part is read back** from its own text. -/
theorem WellFormed.ofChars_text {p : StatePart} (h : p.WellFormed) :
    ofChars p.text.toList = .ok p := by
  have cut : Text.cut? '=' p.text.toList = some (p.name.toList, p.value.toList) :=
    Text.cut?_eq_some_iff.2 ⟨p.toList_text, fun mem =>
      (h.clean _ (List.mem_append_left _ mem)).1 rfl⟩
  have name : p.name.toList ≠ [] := by simpa using h.name
  have value : p.value.toList ≠ [] := by simpa using h.value
  have plain : '=' ∉ p.value.toList := fun mem => (h.clean _ (List.mem_append_right _ mem)).1 rfl
  rw [ofChars, cut]
  simp [name, value, plain]

/-- What is read from a text without `;` is well formed. -/
theorem wellFormed_of_ofChars {part : List Char} {p : StatePart} (single : ';' ∉ part)
    (h : ofChars part = .ok p) : p.WellFormed := by
  unfold ofChars at h
  cases cut : Text.cut? '=' part with
  | none =>
    rw [cut] at h
    cases h
  | some sides =>
    obtain ⟨name, value⟩ := sides
    obtain ⟨rfl, first⟩ := Text.cut?_eq_some_iff.1 cut
    rw [cut] at h
    dsimp only at h
    split at h
    · cases h
    · rename_i sound
      cases h
      simp only [Bool.or_eq_true, not_or, List.isEmpty_iff, List.contains_iff_mem] at sound
      obtain ⟨⟨some_name, some_value⟩, last⟩ := sound
      simp only [List.mem_append, List.mem_cons, not_or] at single
      refine ⟨by simpa using some_name, by simpa using some_value, ?_⟩
      intro c mem
      rw [String.toList_ofList, String.toList_ofList] at mem
      rcases List.mem_append.1 mem with mem | mem
      · exact ⟨ne_of_mem_of_not_mem mem first, ne_of_mem_of_not_mem mem single.1⟩
      · exact ⟨ne_of_mem_of_not_mem mem last, ne_of_mem_of_not_mem mem single.2.2⟩

end StatePart

namespace StateKey

def WellFormed (k : StateKey) : Prop := ∀ p ∈ k.parts, p.WellFormed

instance (k : StateKey) : Decidable k.WellFormed :=
  inferInstanceAs (Decidable (∀ p ∈ k.parts, p.WellFormed))

theorem wellFormed_empty : WellFormed ∅ := nofun

theorem WellFormed.push {k : StateKey} (h : k.WellFormed) {name value : String}
    (last : StatePart.WellFormed ⟨name, value⟩) : (k.push name value).WellFormed := by
  intro p mem
  rcases List.mem_append.1 mem with before | this
  · exact h p before
  · exact List.mem_singleton.1 this ▸ last

theorem WellFormed.of_isLevelOf {level key : StateKey} (h : key.WellFormed)
    (coarser : level.IsLevelOf key) : level.WellFormed :=
  fun p mem => h p (coarser.subset mem)

theorem toList_text_of_parts {parts : List StatePart} (some_part : parts ≠ []) :
    (text ⟨parts⟩).toList = [';'].intercalate (parts.map (·.text.toList)) := by
  rw [text, isEmpty, if_neg (by simpa using some_part), String.toList_intercalate, List.map_map]
  rfl

/-- The text of a key that is not empty is no star: it holds an equals sign. -/
theorem ofText_text_of_parts {p : StatePart} {rest : List StatePart} :
    ofText (text ⟨p :: rest⟩) = (StateKey.mk ·) <$>
      (Text.pieces ';' ([';'].intercalate ((p :: rest).map (·.text.toList)))).mapM
        StatePart.ofChars := by
  have joined := toList_text_of_parts (List.cons_ne_nil p rest)
  have sign : '=' ∈ (text ⟨p :: rest⟩).toList := by
    rw [joined, List.map_cons, p.toList_text]
    cases rest.map (·.text.toList) <;> simp [List.intercalate]
  have other : text ⟨p :: rest⟩ ≠ "*" := by
    intro star
    rw [star] at sign
    revert sign
    decide
  rw [ofText, if_neg (by simpa using other), joined]

/-- A key that has been read is well formed. -/
theorem wellFormed_of_ofText {s : String} {k : StateKey} (h : ofText s = .ok k) : k.WellFormed := by
  unfold ofText at h
  split at h
  · cases h
    exact wellFormed_empty
  · cases read : (Text.pieces ';' s.toList).mapM StatePart.ofChars with
    | error cause =>
      rw [read] at h
      cases h
    | ok parts =>
      rw [read] at h
      cases h
      exact forall_mem_of_mapM
        (fun piece mem => StatePart.wellFormed_of_ofChars (Text.not_mem_of_mem_pieces mem)) read

/-- **A well-formed key is read back** from its text. -/
theorem WellFormed.ofText_text {k : StateKey} (h : k.WellFormed) : ofText k.text = .ok k := by
  obtain ⟨parts⟩ := k
  cases parts with
  | nil => rfl
  | cons p rest =>
    have clean : ∀ piece ∈ (p :: rest).map (·.text.toList), ';' ∉ piece := by
      intro piece mem separator
      obtain ⟨q, inside, rfl⟩ := List.mem_map.1 mem
      rw [q.toList_text, List.mem_append, List.mem_cons] at separator
      rcases separator with name | equals | value
      · exact ((h q inside).clean _ (List.mem_append_left _ name)).2 rfl
      · cases equals
      · exact ((h q inside).clean _ (List.mem_append_right _ value)).2 rfl
    have parts : ((p :: rest).map (·.text.toList)).mapM StatePart.ofChars = .ok (p :: rest) := by
      have each := mapM_eq_ok (f := fun q : StatePart => StatePart.ofChars q.text.toList) (g := id)
        fun q mem => (h q mem).ofChars_text
      rw [List.map_id] at each
      rwa [List.mapM_map]
    rw [ofText_text_of_parts, Text.pieces_intercalate (by simp) clean, parts]
    rfl

theorem ofText_text_iff {k : StateKey} : ofText k.text = .ok k ↔ k.WellFormed :=
  ⟨wellFormed_of_ofText, WellFormed.ofText_text⟩

/-- Well-formed keys with the same text are the same. -/
theorem WellFormed.eq_of_text {k other : StateKey} (h : k.WellFormed) (hOther : other.WellFormed)
    (same : k.text = other.text) : k = other := by
  have read := h.ofText_text
  rw [same, hOther.ofText_text] at read
  exact (Except.ok.inj read).symm

end StateKey

namespace StateSpec

theorem wellFormed_rsiValue (closes : Array Float) (period : Nat) :
    StatePart.WellFormed ⟨"rsi", rsiValue closes period⟩ := by
  have digits : ∀ n : Fin 10, StatePart.WellFormed ⟨"rsi", toString n.val⟩ := by decide
  unfold rsiValue
  dsimp only
  split
  · decide
  · split
    · rename_i rsi _
      have below : tenth rsi < 10 := Nat.lt_succ_of_le (Nat.min_le_right _ _)
      exact digits ⟨tenth rsi, below⟩
    · decide

theorem wellFormed_volatilityValue {closes : Array Float} {short long : Nat} {value : String}
    (h : volatilityValue closes short long = .ok value) : StatePart.WellFormed ⟨"vol", value⟩ := by
  unfold volatilityValue at h
  split at h
  · cases h
    decide
  · split at h
    · cases h
    · cases h
      unfold regime
      dsimp only
      split
      · decide
      · split
        · decide
        · split <;> decide

/-- **What is computed from closes is well formed.** -/
theorem wellFormed_of_compute {s : StateSpec} {closes : Array Float} {key : StateKey}
    (h : s.compute closes = .ok key) : key.WellFormed := by
  unfold compute at h
  dsimp only at h
  split at h
  · obtain ⟨value, computed, h⟩ := bind_eq_ok_iff.1 h
    cases h
    refine StateKey.WellFormed.push ?_ (wellFormed_volatilityValue computed)
    split
    · exact StateKey.wellFormed_empty.push (wellFormed_rsiValue closes _)
    · exact StateKey.wellFormed_empty
  · cases h
    split
    · exact StateKey.wellFormed_empty.push (wellFormed_rsiValue closes _)
    · exact StateKey.wellFormed_empty

end StateSpec

end FxPulse
