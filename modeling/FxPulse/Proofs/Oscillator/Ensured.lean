import FxPulse.Proofs.Number.Order
import FxPulse.Proofs.Oscillator.Bank

/-!
# `Proofs/Oscillator/Ensured.lean` — oscillators that are asked for again

A bank is asked for all its oscillators time and again, and adds those that it does not hold. Whether it
holds one is a matter of being the same, and bands that are no numbers are not the same as themselves.

> A bank that holds all that it is asked for stays as it is (`ensureAll_of_holds`), and of oscillators
> that are the same as themselves none is added twice (`nodup_ensureAll`). Of the others, each one is
> added each time (`countP_le_added`).
-/

set_option autoImplicit false

namespace FxPulse

/-- What anything is the same as is the same as itself. -/
theorem Bands.sameAs_self_of_sameAs {a b : Bands} (h : a.sameAs b = true) : b.sameAs b = true := by
  obtain ⟨overbought, oversold⟩ := Bool.and_eq_true_iff.1 h
  exact Bool.and_eq_true_iff.2 ⟨Number.beq_self_of_beq overbought, Number.beq_self_of_beq oversold⟩

namespace OscillatorSpec

theorem sameAs_iff {a b : OscillatorSpec} :
    a.sameAs b = true ↔ a.source = b.source ∧ a.kind = b.kind ∧ a.bands.sameAs b.bands = true := by
  simp only [sameAs, Bool.and_eq_true, beq_iff_eq, and_assoc]

theorem sameAs_self_iff {s : OscillatorSpec} : s.sameAs s = true ↔ s.bands.sameAs s.bands = true := by
  simp only [sameAs_iff, true_and]

theorem sameAs_self_of_sameAs {a b : OscillatorSpec} (h : a.sameAs b = true) : b.sameAs b = true :=
  sameAs_self_iff.2 (Bands.sameAs_self_of_sameAs (sameAs_iff.1 h).2.2)

end OscillatorSpec

namespace Bank

variable {b after : Bank} {spec : OscillatorSpec} {specs : List OscillatorSpec} {added : Nat}

theorem holds_self_of_mem (mem : spec ∈ b.entries.map (·.spec)) (same : spec.sameAs spec = true) :
    b.holds spec = true := by
  obtain ⟨e, he, rfl⟩ := List.mem_map.1 mem
  exact List.any_eq_true.2 ⟨e, he, same⟩

/-- Nothing that is not the same as itself is ever held. -/
theorem sameAs_self_of_holds (h : b.holds spec = true) : spec.sameAs spec = true := by
  obtain ⟨e, -, same⟩ := List.any_eq_true.1 h
  exact OscillatorSpec.sameAs_self_of_sameAs same

/-- Reading on does not change what is held. -/
theorem holds_congr {other : Bank} (specs : other.entries.map (·.spec) = b.entries.map (·.spec)) :
    other.holds spec = b.holds spec := by
  have through : ∀ bank : Bank, bank.holds spec = (bank.entries.map (·.spec)).any (·.sameAs spec) := by
    intro bank
    rw [List.any_map]
    rfl
  rw [through, through, specs]

/-- A bank that holds all that it is asked for stays as it is. -/
theorem ensureAll_of_holds (held : ∀ spec ∈ specs, b.holds spec = true) :
    b.ensureAll specs = .ok (b, 0) := by
  induction specs with
  | nil => rfl
  | cons spec rest ih =>
    obtain ⟨own, others⟩ := List.forall_mem_cons.1 held
    exact ensureAll_cons_eq_ok_iff.2 ⟨b, false, 0, ensure_of_holds own, ih others, rfl⟩

/-- What is there after it was asked for, or was there before. -/
theorem mem_of_ensureAll (h : b.ensureAll specs = .ok (after, added))
    (asked : ∀ spec ∈ b.entries.map (·.spec), spec ∈ specs) :
    ∀ spec ∈ after.entries.map (·.spec), spec ∈ specs := by
  obtain ⟨⟨entries, rfl, fresh⟩, -⟩ := ensureAll_eq_ok h
  intro spec mem
  rw [List.map_append, List.mem_append] at mem
  rcases mem with old | new
  · exact asked spec old
  · obtain ⟨e, he, rfl⟩ := List.mem_map.1 new
    obtain ⟨spec, mem, -, rfl⟩ := fresh e he
    exact mem

/-- What is added depends on what is there, and not on what that has read. -/
theorem ensureAll_congr {other : Bank}
    (same : other.entries.map (·.spec) = b.entries.map (·.spec))
    (h : b.ensureAll specs = .ok (after, added)) :
    ∃ grown, other.ensureAll specs = .ok (grown, added) ∧
      grown.entries.map (·.spec) = after.entries.map (·.spec) := by
  induction specs generalizing b other added with
  | nil =>
    cases h
    exact ⟨other, rfl, same⟩
  | cons spec rest ih =>
    obtain ⟨mid, isNew, more, first, later, rfl⟩ := ensureAll_cons_eq_ok_iff.1 h
    have held : other.holds spec = b.holds spec := holds_congr same
    rcases ensure_eq_ok first with ⟨there, rfl, rfl⟩ | ⟨missing, rfl, rfl⟩
    · obtain ⟨grown, others, specs⟩ := ih same later
      exact ⟨grown, ensureAll_cons_eq_ok_iff.2
        ⟨other, false, more, ensure_of_holds (held.trans there), others, rfl⟩, specs⟩
    · obtain ⟨fits, -⟩ := (ensure_eq_ok_iff missing).1 first
      have start := (ensure_eq_ok_iff (held.trans missing)).2 ⟨fits, rfl⟩
      let mid : Bank := ⟨other.entries ++ [BankEntry.start spec (Oscillator.new spec.kind)]⟩
      have both : mid.entries.map (·.spec)
          = (b.entries ++ [BankEntry.start spec (Oscillator.new spec.kind)]).map (·.spec) := by
        rw [List.map_append, List.map_append, same]
      obtain ⟨grown, others, specs⟩ := ih both later
      exact ⟨grown, ensureAll_cons_eq_ok_iff.2 ⟨mid, true, more, start, others, rfl⟩, specs⟩

/-- Of oscillators that are the same as themselves none is added twice. -/
theorem nodup_ensureAll (same : ∀ spec ∈ specs, spec.sameAs spec = true)
    (once : (b.entries.map (·.spec)).Nodup) (h : b.ensureAll specs = .ok (after, added)) :
    (after.entries.map (·.spec)).Nodup := by
  induction specs generalizing b added with
  | nil =>
    cases h
    exact once
  | cons spec rest ih =>
    obtain ⟨own, others⟩ := List.forall_mem_cons.1 same
    obtain ⟨mid, isNew, more, first, later, -⟩ := ensureAll_cons_eq_ok_iff.1 h
    refine ih others ?_ later
    rcases ensure_eq_ok first with ⟨-, rfl, -⟩ | ⟨missing, rfl, -⟩
    · exact once
    · rw [List.map_append, List.map_singleton, BankEntry.spec_start, ← List.concat_eq_append]
      apply once.concat
      intro mem
      rw [holds_self_of_mem mem own] at missing
      cases missing

/-- What is not the same as itself is added whenever it is asked for. -/
theorem countP_le_added (h : b.ensureAll specs = .ok (after, added)) :
    specs.countP (fun spec => !spec.sameAs spec) ≤ added := by
  induction specs generalizing b added with
  | nil => exact Nat.zero_le _
  | cons spec rest ih =>
    obtain ⟨mid, isNew, more, first, later, rfl⟩ := ensureAll_cons_eq_ok_iff.1 h
    have others := ih later
    rw [List.countP_cons]
    rcases ensure_eq_ok first with ⟨held, -, rfl⟩ | ⟨-, -, rfl⟩
    · rw [sameAs_self_of_holds held]
      exact others
    · split
      · exact Nat.succ_le_succ others
      · exact Nat.le_succ_of_le others

end Bank

end FxPulse
