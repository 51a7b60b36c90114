import FxPulse.Engine.Basic
import FxPulse.Proofs.Lists
import Mathlib.Data.List.Nodup

/-!
# `Proofs/Engine/Published.lean` — outputs under their labels

A refresh publishes the outputs of a bank one after the other, each under the label of its oscillator. So
a label shows the last of the entries that have it, and what was published before only where no entry
has it. Labels are texts, and could be confused; within one configuration those of prices are not:

> an oscillator with the label of one over a price is of the same kind and over the same price
> (`label_eq_price`).
-/

set_option autoImplicit false

namespace FxPulse

/-! ## Labels -/

/-- The first letter of a label tells the kind. -/
def OscillatorKind.letter : OscillatorKind → Char
  | .rsi _ => 'r'
  | .stochastic _ _ => 's'
  | .zScore _ => 'z'
  | .percentRank _ => 'p'

theorem OscillatorKind.head?_text (k : OscillatorKind) : k.text.toList.head? = some k.letter := by
  cases k <;> simp [text, letter, String.toList_append]

/-- In one configuration each kind comes once. -/
theorem Engine.kinds_injective {o : OscillatorSettings} {a b : OscillatorKind × Bands}
    (ha : a ∈ kinds o) (hb : b ∈ kinds o) (same : a.1.letter = b.1.letter) : a = b := by
  have letters : (kinds o).map (fun k => k.1.letter) = ['r', 's', 'z', 'p'] := rfl
  have distinct : ((kinds o).map fun k => k.1.letter).Nodup := by
    rw [letters]
    decide
  exact List.inj_on_of_nodup_map distinct ha hb same

/-- No other source has the text of a price. -/
theorem Source.text_eq_price {source : Source} {instrument : String}
    (h : source.text = (Source.price instrument).text) : source = .price instrument := by
  have chars := congrArg String.toList h
  cases source with
  | price other =>
    simp only [text, String.toList_append, List.append_cancel_left_eq] at chars
    rw [String.toList_inj.1 chars]
  | strength currency window => simp [text, String.toList_append] at chars
  | differential base quote window => simp [text, String.toList_append] at chars

/-- Within one configuration a label tells the kind, the bands and the text of the source. -/
theorem Engine.eq_of_label {o : OscillatorSettings} {spec other : OscillatorSpec}
    (known : (spec.kind, spec.bands) ∈ kinds o) (own : (other.kind, other.bands) ∈ kinds o)
    (h : spec.label = other.label) :
    spec.kind = other.kind ∧ spec.bands = other.bands ∧ spec.source.text = other.source.text := by
  have chars := congrArg String.toList h
  simp only [OscillatorSpec.label, String.toList_append, List.append_assoc] at chars
  have letters : spec.kind.letter = other.kind.letter := by
    have first := congrArg List.head? chars
    simp only [List.head?_append, OscillatorKind.head?_text, Option.some_or] at first
    exact Option.some.inj first
  obtain ⟨sameKind, sameBands⟩ := Prod.mk.inj (kinds_injective known own letters)
  rw [sameKind, List.append_cancel_left_eq, List.append_cancel_left_eq] at chars
  exact ⟨sameKind, sameBands, String.toList_inj.1 chars⟩

/-- Oscillators of one configuration are confused only if they are the same, as far as prices go. -/
theorem Engine.label_eq_price {o : OscillatorSettings} {spec : OscillatorSpec} {kind : OscillatorKind}
    {bands : Bands} {instrument : String} (known : (spec.kind, spec.bands) ∈ kinds o)
    (own : (kind, bands) ∈ kinds o)
    (h : spec.label = (⟨.price instrument, kind, bands⟩ : OscillatorSpec).label) :
    spec = ⟨.price instrument, kind, bands⟩ := by
  obtain ⟨sameKind, sameBands, texts⟩ := eq_of_label known own h
  have sameSource := Source.text_eq_price texts
  cases spec
  cases sameSource
  cases sameKind
  cases sameBands
  rfl

namespace BankEntry

/-- What is published of an entry. -/
def shown (e : BankEntry) : PublishedOscillator := ⟨e.spec.label, e.spec.source, e.spec.kind, e.output⟩

end BankEntry

namespace Engine

/-- A label shows the last entry that has it. -/
theorem getElem?_publish (entries : List BankEntry)
    (published : Std.ExtTreeMap String PublishedOscillator) (label : String) :
    ((Bank.mk entries).readings.foldl publish published)[label]?
      = ((entries.reverse.find? fun e => e.spec.label = label).map (·.shown)).or published[label]? := by
  rw [Bank.readings, List.foldl_map]
  exact getElem?_foldl_insert (fun e : BankEntry => e.spec.label) BankEntry.shown entries published label

/-- Publishing the same outputs again changes nothing. -/
theorem foldl_publish_foldl_publish (entries : List BankEntry)
    (published : Std.ExtTreeMap String PublishedOscillator) :
    (Bank.mk entries).readings.foldl publish ((Bank.mk entries).readings.foldl publish published)
      = (Bank.mk entries).readings.foldl publish published := by
  simp only [Bank.readings, List.foldl_map]
  exact foldl_insert_foldl_insert (fun e : BankEntry => e.spec.label) BankEntry.shown entries published

/-- What a label shows is shown of an entry with that label, or was there before. -/
theorem of_getElem?_publish {entries : List BankEntry}
    {published : Std.ExtTreeMap String PublishedOscillator} {label : String} {p : PublishedOscillator}
    (h : ((Bank.mk entries).readings.foldl publish published)[label]? = some p) :
    (∃ e ∈ entries, e.spec.label = label ∧ p = e.shown) ∨
      ((∀ e ∈ entries, e.spec.label ≠ label) ∧ published[label]? = some p) := by
  rw [getElem?_publish] at h
  cases found : entries.reverse.find? fun e => e.spec.label = label with
  | none =>
    rw [found] at h
    refine .inr ⟨fun e he => ?_, h⟩
    simpa using List.find?_eq_none.1 found e (List.mem_reverse.2 he)
  | some e =>
    rw [found] at h
    have own : e.spec.label = label := by simpa using List.find?_some found
    exact .inl ⟨e, List.mem_reverse.1 (List.mem_of_find?_eq_some found), own, (Option.some.inj h).symm⟩

/-- The label of an entry shows an entry. -/
theorem exists_getElem?_publish {entries : List BankEntry}
    (published : Std.ExtTreeMap String PublishedOscillator) {e : BankEntry} (he : e ∈ entries) :
    ∃ other ∈ entries, other.spec.label = e.spec.label ∧
      ((Bank.mk entries).readings.foldl publish published)[e.spec.label]? = some other.shown := by
  have some_entry : (entries.reverse.find? fun other => other.spec.label = e.spec.label).isSome := by
    rw [List.find?_isSome]
    exact ⟨e, List.mem_reverse.2 he, by simp⟩
  obtain ⟨other, found⟩ := Option.isSome_iff_exists.1 some_entry
  have own : other.spec.label = e.spec.label := by simpa using List.find?_some found
  refine ⟨other, List.mem_reverse.1 (List.mem_of_find?_eq_some found), own, ?_⟩
  rw [getElem?_publish, found]
  rfl

end Engine

end FxPulse
