import FxPulse.Feed

/-!
# `Proofs/Feed/Lines.lean` — the lines of a text

A feed is cut into lines as bytes, before anything is read as text. For what is text that makes no difference: in
UTF-8 the byte of a line feed stands for nothing else, so

> the lines of the bytes of a text are the bytes of its lines (`pieces_toBytes`), and each of them is text again
> (`ofBytes?_toBytes`).

What counts of a feed that is text is its bodies, the lines that are not blank, trimmed (`forwardBytes_toBytes`).
-/

set_option autoImplicit false

namespace FxPulse

namespace Text

/-! ## Cutting what is spelled out -/

section Spelled

variable {α β : Type} [BEq α] [LawfulBEq α] [BEq β] [LawfulBEq β]

/-- What stands before the first piece becomes a part of it. -/
theorem pieces_append {separator : β} {front text piece : List β} {more : List (List β)}
    (clean : separator ∉ front) (h : pieces separator text = piece :: more) :
    pieces separator (front ++ text) = (front ++ piece) :: more := by
  induction front with
  | nil => exact h
  | cons b rest ih =>
    simp only [List.mem_cons, not_or] at clean
    simp [pieces, Ne.symm clean.1, ih clean.2]

/-- A text in which each character is spelled out is cut where its characters are, if the separator is spelled by
one that occurs nowhere else. -/
theorem pieces_flatMap {spell : α → List β} {separator : α} {mark : β} (own : spell separator = [mark])
    (others : ∀ c, c ≠ separator → mark ∉ spell c) (text : List α) :
    pieces mark (text.flatMap spell) = (pieces separator text).map (·.flatMap spell) := by
  induction text with
  | nil => rfl
  | cons c rest ih =>
    rw [List.flatMap_cons]
    by_cases same : c = separator
    · simp [pieces, same, own, ih]
    · obtain ⟨piece, more, cut⟩ := List.exists_cons_of_ne_nil (pieces_ne_nil separator rest)
      rw [cut, List.map_cons] at ih
      rw [pieces_append (others c same) ih]
      simp [pieces, same, cut]

end Spelled

/-! ## Bytes -/

/-- Bytes are listed in their order: what has been read, from the last one back, and then what is left. -/
theorem toList_loop_eq (bytes : ByteArray) {left i : Nat} (end_at : i + left = bytes.size) (read : List UInt8) :
    ByteArray.toList.loop bytes i read = read.reverse ++ bytes.data.toList.drop i := by
  induction left generalizing i read with
  | zero =>
    rw [ByteArray.toList.loop, if_neg (by omega), List.drop_of_length_le, List.append_nil]
    rw [Array.length_toList]
    exact Nat.le_of_eq end_at.symm
  | succ left ih =>
    have inside : i < bytes.size := Nat.lt_of_lt_of_eq (by omega) end_at
    rw [ByteArray.toList.loop, if_pos inside, ih (by omega), List.reverse_cons, List.append_assoc]
    rw [List.drop_eq_getElem_cons (i := i) (by simpa using inside)]
    simp [ByteArray.get!, inside]

theorem toBytes_eq (text : String) : toBytes text = text.toByteArray.data.toList := by
  exact toList_loop_eq _ (Nat.zero_add _) []

theorem toBytes_ofList (chars : List Char) :
    toBytes (String.ofList chars) = chars.flatMap String.utf8EncodeChar := by
  rw [toBytes_eq]
  simp [List.utf8Encode]

/-- **The bytes of a text spell it.** -/
theorem ofBytes?_toBytes (text : String) : ofBytes? (toBytes text) = some text := by
  rw [ofBytes?, toBytes_eq, Array.toArray_toList, String.fromUTF8?, dif_pos text.isValidUTF8]
  rfl

/-- The byte of a line feed is in no other character. -/
theorem ten_notMem_utf8EncodeChar {c : Char} (other : c ≠ '\n') : 10 ∉ String.utf8EncodeChar c := by
  have code : c.val.toNat ≠ 10 := fun same => other (Char.ext (UInt32.toNat.inj same))
  have byte : ∀ n : Nat, 10 = UInt8.ofNat n ↔ n % 256 = 10 := fun n => by
    rw [← UInt8.toNat_inj, UInt8.toNat_ofNat', eq_comm]
    rfl
  -- A character of one byte has its code there; each byte of several is in the upper half.
  intro mem
  unfold String.utf8EncodeChar at mem
  dsimp only at mem
  repeat' split at mem
  all_goals
    simp only [List.mem_cons, List.not_mem_nil, or_false, byte] at mem
    omega

/-- **The lines of the bytes are the bytes of the lines.** -/
theorem pieces_toBytes (text : String) :
    pieces 10 (toBytes text) = (pieces '\n' text.toList).map fun line => toBytes (String.ofList line) := by
  have spelled := toBytes_ofList text.toList
  rw [String.ofList_toList] at spelled
  have own : String.utf8EncodeChar '\n' = [10] := rfl
  rw [spelled, pieces_flatMap own fun c => ten_notMem_utf8EncodeChar]
  simp only [toBytes_ofList]

end Text

namespace Feed

/-! ## Bodies -/

/-- The lines of a text that are not blank, without the blanks at their ends. -/
def bodies (text : String) : List String :=
  ((Text.pieces '\n' text.toList).map fun line => Text.trim (String.ofList line)).filter fun body => !body.isEmpty

/-- The tick that a body spells. -/
def tick? (body : String) : Option Tick := (Json.parse? body).bind Tick.ofJson?

def Line.ofBody (body : String) : Line :=
  match tick? body with
  | some t => .tick t
  | none => .malformed

theorem ofBytes_toBytes (text : String) :
    Line.ofBytes (Text.toBytes text)
      = if (Text.trim text).isEmpty then .blank else Line.ofBody (Text.trim text) := by
  unfold Line.ofBytes
  rw [Text.ofBytes?_toBytes]
  rfl

/-- A feed goes on behind a line as it would behind any other that leaves it where it is. -/
theorem forward_cons_congr {some_lines others : List Line}
    (same : ∀ room stats, forward room stats some_lines = forward room stats others) (room : Option Nat)
    (stats : FeedStats) (line : Line) :
    forward room stats (line :: some_lines) = forward room stats (line :: others) := by
  cases line <;> simp only [forward, same]

theorem forward_texts (texts : List String) (room : Option Nat) (stats : FeedStats) :
    forward room stats (texts.map fun text => Line.ofBytes (Text.toBytes text))
      = forward room stats (((texts.map Text.trim).filter fun body => !body.isEmpty).map Line.ofBody) := by
  induction texts generalizing room stats with
  | nil => rfl
  | cons text rest ih =>
    rw [List.map_cons, List.map_cons, ofBytes_toBytes]
    by_cases blank : (Text.trim text).isEmpty = true
    · rw [if_pos blank, List.filter_cons_of_neg (by simp [blank])]
      exact ih room stats
    · rw [if_neg blank, List.filter_cons_of_pos (by simp [blank]), List.map_cons]
      exact forward_cons_congr ih room stats _

/-- **A feed of text is a feed of its bodies.** -/
theorem forwardBytes_toBytes (room : Option Nat) (text : String) :
    forwardBytes room (Text.toBytes text) = forward room ⟨0, 0, 0⟩ ((bodies text).map Line.ofBody) := by
  rw [forwardBytes, lines, Text.pieces_toBytes, bodies, List.map_map]
  have texts := forward_texts ((Text.pieces '\n' text.toList).map String.ofList) room ⟨0, 0, 0⟩
  rw [List.map_map, List.map_map] at texts
  exact texts

end Feed

end FxPulse
