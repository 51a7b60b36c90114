import FxPulse.Proofs.State.Text

/-!
# `Proofs/State/Spelling.lean` — every key has one text, and every text one key

`Proofs/State/Text.lean` goes from a key to its text and back. Here is the way from a text to a key and
back, which loses nothing either: a reading cuts the text at its semicolons and each piece at its one
equals sign, and the same signs are put in again where it is written down. So

> a text is read as a key exactly if the key is well formed and the text is its own (`ofText_eq_ok_iff`).

From that follow the texts that are read at all, and that keys computed from closes can be told apart by
their texts.
-/

set_option autoImplicit false

namespace FxPulse

/-- The pieces of a text, joined again, are the text. -/
theorem Text.intercalate_pieces {α : Type} [BEq α] [LawfulBEq α] (separator : α) (text : List α) :
    [separator].intercalate (pieces separator text) = text := by
  induction text with
  | nil => simp [pieces]
  | cons c rest ih =>
    cases split : pieces separator rest with
    | nil => exact absurd split (pieces_ne_nil separator rest)
    | cons piece more =>
      rw [split] at ih
      by_cases same : c = separator
      · rw [pieces, same, beq_self_eq_true, if_pos rfl, split, List.intercalate_cons_cons, ih]
        rfl
      · rw [pieces, if_neg (by simpa using same), split]
        -- The character joins the first piece, whether or not another one follows.
        cases more with
        | nil => simpa using ih
        | cons next others =>
          rw [List.intercalate_cons_cons] at ih ⊢
          simp [← ih]

/-- A part that has been read is written as the piece it was read from. -/
theorem StatePart.toList_text_of_ofChars {piece : List Char} {p : StatePart}
    (h : ofChars piece = .ok p) : p.text.toList = piece := by
  unfold ofChars at h
  cases cut : Text.cut? '=' piece with
  | none =>
    rw [cut] at h
    cases h
  | some sides =>
    obtain ⟨name, value⟩ := sides
    obtain ⟨rfl, -⟩ := Text.cut?_eq_some_iff.1 cut
    rw [cut] at h
    dsimp only at h
    split at h
    · cases h
    · cases h
      rw [toList_text, String.toList_ofList, String.toList_ofList]

namespace StateKey

/-- **A text that has been read is written down again as it was.** -/
theorem text_of_ofText {s : String} {k : StateKey} (h : ofText s = .ok k) : k.text = s := by
  unfold ofText at h
  split at h
  · rename_i star
    cases h
    exact (beq_iff_eq.1 star).symm
  · cases read : (Text.pieces ';' s.toList).mapM StatePart.ofChars with
    | error cause =>
      rw [read] at h
      cases h
    | ok parts =>
      rw [read] at h
      cases h
      have pieces : parts.map (·.text.toList) = Text.pieces ';' s.toList :=
        map_eq_of_mapM StatePart.toList_text_of_ofChars read
      have some_part : parts ≠ [] := by
        rintro rfl
        exact Text.pieces_ne_nil ';' s.toList pieces.symm
      apply String.toList_injective
      rw [toList_text_of_parts some_part, pieces, Text.intercalate_pieces]

/-- **Reading and writing are inverse to each other** between texts that can be read and well-formed
keys. -/
theorem ofText_eq_ok_iff {s : String} {k : StateKey} :
    ofText s = .ok k ↔ k.WellFormed ∧ k.text = s := by
  constructor
  · intro read
    exact ⟨wellFormed_of_ofText read, text_of_ofText read⟩
  · rintro ⟨wellFormed, rfl⟩
    exact wellFormed.ofText_text

theorem text_eq_intercalate {k : StateKey} (some_part : k.parts ≠ []) :
    k.text = ";".intercalate (k.parts.map fun p => p.name ++ "=" ++ p.value) := by
  rw [text, isEmpty, if_neg (by simpa using some_part)]
  rfl

/-- A text is read if it is a star, or lists well-formed parts. -/
theorem exists_ofText_iff {s : String} :
    (∃ k, ofText s = .ok k) ↔ s = "*" ∨ ∃ parts : List StatePart, parts ≠ [] ∧
      (∀ p ∈ parts, p.WellFormed) ∧
        s = ";".intercalate (parts.map fun p => p.name ++ "=" ++ p.value) := by
  constructor
  · rintro ⟨k, read⟩
    obtain ⟨wellFormed, rfl⟩ := ofText_eq_ok_iff.1 read
    by_cases nothing : k.parts = []
    · left
      rw [text, isEmpty, nothing]
      rfl
    · right
      exact ⟨k.parts, nothing, wellFormed, text_eq_intercalate nothing⟩
  · rintro (rfl | ⟨parts, some_part, wellFormed, rfl⟩)
    · exact ⟨empty, rfl⟩
    · exact ⟨⟨parts⟩, ofText_eq_ok_iff.2 ⟨wellFormed, text_eq_intercalate some_part⟩⟩

/-! ## Keys out of closes -/

/-- A key that is computed from some closes, or leaves out the last parts of one. -/
def IsComputed (k : StateKey) : Prop :=
  ∃ (s : StateSpec) (closes : Array Float) (key : StateKey),
    s.compute closes = .ok key ∧ k ∈ key.levels

theorem IsComputed.wellFormed {k : StateKey} (h : k.IsComputed) : k.WellFormed := by
  obtain ⟨s, closes, key, computed, level⟩ := h
  exact (StateSpec.wellFormed_of_compute computed).of_isLevelOf (mem_levels_iff.1 level)

/-- **Texts stand for keys.** Reading accepts exactly what writing a well-formed key produces, and gives
that key: so well-formed keys are read back from their texts, and texts that are read are written down
again as they were. They are the star, and the lists of one or more parts with a semicolon between any
two, where a part is a name and a value, neither empty, with an equals sign between them and none of the
two signs anywhere else. Keys computed from closes and the coarser ones are well formed, so that two of
them with one text are one key. -/
theorem ofText_inverts_text :
    (∀ s k, ofText s = .ok k ↔ k.WellFormed ∧ k.text = s) ∧
    (∀ s, (∃ k, ofText s = .ok k) ↔ s = "*" ∨ ∃ parts : List StatePart, parts ≠ [] ∧
      (∀ p ∈ parts, p.WellFormed) ∧
        s = ";".intercalate (parts.map fun p => p.name ++ "=" ++ p.value)) ∧
    (∀ k : StateKey, k.IsComputed → k.WellFormed) ∧
    ∀ k other : StateKey, k.IsComputed → other.IsComputed → k.text = other.text → k = other := by
  refine ⟨fun s k => ofText_eq_ok_iff, fun s => exists_ofText_iff, fun k => IsComputed.wellFormed, ?_⟩
  intro k other computed otherComputed same
  exact computed.wellFormed.eq_of_text otherComputed.wellFormed same

/-- Closes that went far and then little: relative strength stands high, and the market is calm. The key
and the coarser one are read back from their texts, no other computed key has the text of the coarser one,
and a text that ends with a semicolon is refused. -/
theorem ofText_inverts_text_calm : ∃ key,
    StateSpec.compute ⟨some 2, some (2, 4)⟩ #[1.0, 2.0, 1.0, 1.5, 1.25, 1.5, 1.25, 1.5, 1.75] = .ok key ∧
    ofText "rsi=8;vol=low" = .ok key ∧ ofText "rsi=8" = .ok (key.take 1) ∧
    (∀ other : StateKey, other.IsComputed → other.text = "rsi=8" → other = key.take 1) ∧
    ¬ ∃ k, ofText "rsi=8;" = .ok k := by
  obtain ⟨reads, -, sound, apart⟩ := ofText_inverts_text
  have known : (StateSpec.compute ⟨some 2, some (2, 4)⟩
      #[1.0, 2.0, 1.0, 1.5, 1.25, 1.5, 1.25, 1.5, 1.75]).toOption.any (fun key =>
        decide (key.text = "rsi=8;vol=low" ∧ (key.take 1).text = "rsi=8")) = true := by
    decide +kernel
  obtain ⟨key, computed, texts⟩ := exists_ok_of_any known
  obtain ⟨whole, coarser⟩ := of_decide_eq_true texts
  have own : key.IsComputed :=
    ⟨_, _, key, computed, mem_levels_iff.2 (List.prefix_refl key.parts)⟩
  have level : (key.take 1).IsComputed :=
    ⟨_, _, key, computed, mem_levels_iff.2 (take_isLevelOf key 1)⟩
  refine ⟨key, computed, (reads _ _).2 ⟨sound key own, whole⟩, (reads _ _).2 ⟨sound _ level, coarser⟩,
    fun other hOther same => apart other _ hOther level (same.trans coarser.symm), ?_⟩
  have refused : (ofText "rsi=8;").toOption.isNone = true := by decide +kernel
  rintro ⟨k, read⟩
  rw [read] at refused
  cases refused

end StateKey

end FxPulse
