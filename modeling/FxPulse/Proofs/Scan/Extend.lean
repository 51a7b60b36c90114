import FxPulse.Proofs.Scan.Counts

/-!
# `Proofs/Scan/Extend.lean` — more bars do not change the past

Bars are put behind bars that have been scanned. What a scan says of the earlier ones rests on places
and times that are still the same, with one exception: a horizon that ended after the last bar could
not be judged before, and perhaps can be judged now.

> A case counts among the earlier bars exactly when it counts among all of them and lies within the
> earlier ones, and it succeeds among the one if it does among the other (`countsFor_append`,
> `succeeds_append`).

So no count ever becomes smaller, and what it gains are the cases that do not lie within the earlier bars.
-/

set_option autoImplicit false

namespace FxPulse.Scan

section Append

variable {bars more : Array Bar} {i : Nat} (hi : i < bars.size)
include hi

theorem lt_size_append : i < (bars ++ more).size := by
  rw [Array.size_append]
  exact Nat.lt_add_right _ hi

/-! ## Looking back -/

theorem isReference_append {length : Int} {j : Nat} :
    IsReference (bars ++ more) length i j ↔ IsReference bars length i j := by
  constructor
  · rintro ⟨_, hj, early, last⟩
    refine ⟨hi, hj, ?_, ?_⟩
    · rwa [Array.getElem_append_left (by omega), Array.getElem_append_left hi] at early
    · intro k hjk hk
      have late := last k hjk hk
      rwa [Array.getElem_append_left hi, Array.getElem_append_left (by omega)] at late
  · rintro ⟨_, hj, early, last⟩
    refine ⟨lt_size_append hi, hj, ?_, ?_⟩
    · rwa [Array.getElem_append_left (by omega), Array.getElem_append_left hi]
    · intro k hjk hk
      rw [Array.getElem_append_left hi, Array.getElem_append_left (by omega)]
      exact last k hjk hk

theorem fires_append {pip : Float} {gap : Int} {t : Trigger} {b : Burst} :
    Fires (bars ++ more) pip gap i t b ↔ Fires bars pip gap i t b := by
  constructor
  · rintro ⟨_, j, hj, reference, spans, detected⟩
    refine ⟨hi, j, hj, (isReference_append hi).1 reference, ?_, ?_⟩
    · rwa [Array.getElem_append_left hi, Array.getElem_append_left (by omega)] at spans
    · rwa [Array.getElem_append_left hi, Array.getElem_append_left (by omega)] at detected
  · rintro ⟨_, j, hj, reference, spans, detected⟩
    refine ⟨lt_size_append hi, j, hj, (isReference_append hi).2 reference, ?_, ?_⟩
    · rwa [Array.getElem_append_left hi, Array.getElem_append_left (by omega)]
    · rwa [Array.getElem_append_left hi, Array.getElem_append_left (by omega)]

theorem closesUpTo_append : closesUpTo (bars ++ more) i = closesUpTo bars i := by
  apply Array.toList_inj.1
  simp only [closesUpTo, Array.toList_map, Array.toList_extract, Array.toList_append,
    List.extract_eq_take_drop, List.drop_zero, Nat.sub_zero]
  rw [List.take_append_of_le_length (by simpa using hi)]

/-! ## Looking ahead -/

section Ahead

variable (ascending : Bar.Ascending (bars ++ more).toList)
include ascending

/-- No bar put behind is as early as the last of the bars before. -/
theorem last_lt_of_mem {b : Bar} (hb : b ∈ more.toList) :
    (bars.back (Nat.zero_lt_of_lt hi)).ts < b.ts := by
  rw [Array.toList_append] at ascending
  refine (List.pairwise_append.1 ascending).2.2 _ ?_ b hb
  rw [Array.mem_toList_iff]
  exact Array.getElem_mem _

theorem last_le_last : (bars.back (Nat.zero_lt_of_lt hi)).ts
    ≤ ((bars ++ more).back (Nat.zero_lt_of_lt (lt_size_append hi))).ts := by
  have size : (bars ++ more).size = bars.size + more.size := Array.size_append
  have held : bars.size - 1 < (bars ++ more).size := by omega
  have own : (bars ++ more)[bars.size - 1] = bars[bars.size - 1] :=
    Array.getElem_append_left (by omega)
  rw [Array.back_eq_getElem, Array.back_eq_getElem, ← own]
  rcases Nat.lt_or_ge (bars.size - 1) ((bars ++ more).size - 1) with before | same
  · exact Int.le_of_lt (ascending.lt before (by omega))
  · have place : bars.size - 1 = (bars ++ more).size - 1 := by omega
    simp only [place]
    exact Int.le_refl _

/-- Up to the last of the earlier bars there are no others. -/
theorem within_append {horizon : Int} (ends : horizon ≤ (bars.back (Nat.zero_lt_of_lt hi)).ts)
    (after : Int) :
    within (bars ++ more) after horizon = within bars after horizon := by
  have none_more : more.toList.filter (fun b => after < b.ts && b.ts ≤ horizon) = [] := by
    rw [List.filter_eq_nil_iff]
    intro b hb inside
    have late := last_lt_of_mem hi ascending hb
    simp at inside
    omega
  rw [within, within, Array.toList_append, List.filter_append, none_more, List.append_nil]

/-- What could be judged are the outcomes that can be and whose horizon ends among the earlier bars. -/
theorem judged_append {o : Outcome} :
    Judged bars i o ↔
      Judged (bars ++ more) i o ∧
        bars[i].ts + o.horizon ≤ (bars.back (Nat.zero_lt_of_lt hi)).ts := by
  have held : i < (bars ++ more).size := lt_size_append hi
  have own : (bars ++ more)[i] = bars[i] := Array.getElem_append_left hi
  constructor
  · rintro ⟨_, ends, some_bar⟩
    refine ⟨⟨held, ?_, ?_⟩, ends⟩
    · rw [own]
      exact Int.le_trans ends (last_le_last hi ascending)
    · rwa [own, within_append hi ascending ends]
  · rintro ⟨⟨_, -, some_bar⟩, ends⟩
    rw [own, within_append hi ascending ends] at some_bar
    exact ⟨hi, ends, some_bar⟩

/-- Whether an outcome came true is as it was, when its horizon ends among the earlier bars. -/
theorem reached_append {pip : Float} {o : Outcome} {d : Direction}
    (ends : bars[i].ts + o.horizon ≤ (bars.back (Nat.zero_lt_of_lt hi)).ts) :
    Reached (bars ++ more) pip i o d ↔ Reached bars pip i o d := by
  have held : i < (bars ++ more).size := lt_size_append hi
  have own : (bars ++ more)[i] = bars[i] := Array.getElem_append_left hi
  have stretch := within_append hi ascending ends bars[i].ts
  constructor
  · rintro ⟨_, reached⟩
    rw [own, stretch] at reached
    exact ⟨hi, reached⟩
  · rintro ⟨_, reached⟩
    refine ⟨held, ?_⟩
    rwa [own, stretch]

end Ahead

end Append

/-! ## Cases -/

namespace Case

/-- The case reaches beyond some bars: its bar is none of them, or its horizon ends after the last one. -/
def Beyond (s : ScanSettings) (bars : Array Bar) (c : Case) : Prop :=
  bars.size ≤ c.bar ∨ ∃ o bar last, s.outcomes[c.outcome]? = some o ∧ bars[c.bar]? = some bar ∧
    bars.back? = some last ∧ last.ts < bar.ts + o.horizon

theorem not_beyond_iff {s : ScanSettings} {bars : Array Bar} {c : Case} {o : Outcome}
    (ho : s.outcomes[c.outcome]? = some o) :
    ¬ c.Beyond s bars ↔
      ∃ hi : c.bar < bars.size,
        bars[c.bar].ts + o.horizon ≤ (bars.back (Nat.zero_lt_of_lt hi)).ts := by
  constructor
  · intro within
    have hi : c.bar < bars.size := by
      apply Nat.not_le.1
      intro outside
      exact within (.inl outside)
    refine ⟨hi, ?_⟩
    apply Int.not_lt.1
    intro late
    apply within
    exact .inr ⟨o, bars[c.bar], bars.back (Nat.zero_lt_of_lt hi), ho, Array.getElem?_eq_getElem hi,
      back?_eq_some_back (Nat.zero_lt_of_lt hi), late⟩
  · rintro ⟨hi, ends⟩ (outside | ⟨o', bar, last, ho', hbar, hlast, late⟩)
    · omega
    · obtain rfl : o = o' := Option.some_inj.1 (ho.symm.trans ho')
      rw [Array.getElem?_eq_getElem hi] at hbar
      rw [back?_eq_some_back (Nat.zero_lt_of_lt hi)] at hlast
      rw [← Option.some.inj hbar, ← Option.some.inj hlast] at late
      omega

variable {s : ScanSettings} {bars more : Array Bar} {pip : Float} {key : RowKey} {c : Case}
  (ascending : Bar.Ascending (bars ++ more).toList)
include ascending

/-- **A case counts as before if it lies within the earlier bars**, and no other case did. -/
theorem countsFor_append :
    c.CountsFor s bars pip key ↔ c.CountsFor s (bars ++ more) pip key ∧ ¬ c.Beyond s bars := by
  constructor
  · rintro ⟨t, o, b, state, ht, ho, fires, judged, hstate, counted, named⟩
    have hi := judged.1
    obtain ⟨judgedToo, ends⟩ := (judged_append hi ascending).1 judged
    refine ⟨⟨t, o, b, state, ht, ho, (fires_append hi).2 fires, judgedToo, ?_, counted, named⟩,
      (not_beyond_iff ho).2 ⟨hi, ends⟩⟩
    rwa [closesUpTo_append hi]
  · rintro ⟨⟨t, o, b, state, ht, ho, fires, judged, hstate, counted, named⟩, within⟩
    obtain ⟨hi, ends⟩ := (not_beyond_iff ho).1 within
    refine ⟨t, o, b, state, ht, ho, (fires_append hi).1 fires,
      (judged_append hi ascending).2 ⟨judged, ends⟩, ?_, counted, named⟩
    rwa [closesUpTo_append hi] at hstate

theorem succeeds_append (counts : c.CountsFor s bars pip key) :
    c.Succeeds s (bars ++ more) pip key ↔ c.Succeeds s bars pip key := by
  obtain ⟨t, o, b, state, ht, ho, fires, judged, hstate, counted, named⟩ := counts
  have hi := judged.1
  rw [succeeds_iff ho, succeeds_iff ho]
  exact reached_append hi ascending ((judged_append hi ascending).1 judged).2

end Case

/-- Things with a property are those that also have another, and the rest. -/
theorem ncard_eq_add {α : Type} {P N : α → Prop} (finite : {a | P a}.Finite) :
    {a | P a}.ncard = {a | P a ∧ ¬ N a}.ncard + {a | P a ∧ N a}.ncard := by
  rw [← Set.ncard_inter_add_ncard_sdiff_eq_ncard {a | P a} {a | N a} finite, Nat.add_comm]
  rfl

/-! ## Scans -/

theorem validate_of_append {symbol : String} {bars more : Array Bar}
    (valid : validate symbol (bars ++ more) = .ok ()) : validate symbol bars = .ok () := by
  rw [validate_eq_ok_iff, Array.toList_append] at valid
  obtain ⟨sound, ascending⟩ := valid
  apply validate_eq_ok_iff.2
  refine ⟨?_, (List.pairwise_append.1 ascending).1⟩
  intro b hb
  exact sound b (List.mem_append_left _ hb)

/-- Triggers fire at the earlier bars as they did, so what is more fires at the others. -/
theorem ncard_fired_append {s : ScanSettings} {bars more : Array Bar} (pip : Float) :
    {p : Nat × Nat | ∃ t b, s.triggers[p.2]? = some t ∧
        Fires (bars ++ more) pip s.gap p.1 t b}.ncard
      = {p : Nat × Nat | ∃ t b, s.triggers[p.2]? = some t ∧ Fires bars pip s.gap p.1 t b}.ncard
        + {p : Nat × Nat | (∃ t b, s.triggers[p.2]? = some t ∧
          Fires (bars ++ more) pip s.gap p.1 t b) ∧ bars.size ≤ p.1}.ncard := by
  have finite : {p : Nat × Nat | ∃ t b, s.triggers[p.2]? = some t ∧
      Fires (bars ++ more) pip s.gap p.1 t b}.Finite := by
    apply (Finset.finite_toSet _).subset
    intro p fired
    exact mem_fired fired
  have earlier : ∀ p : Nat × Nat, ((∃ t b, s.triggers[p.2]? = some t ∧
      Fires (bars ++ more) pip s.gap p.1 t b) ∧ ¬ bars.size ≤ p.1) ↔
        ∃ t b, s.triggers[p.2]? = some t ∧ Fires bars pip s.gap p.1 t b := by
    intro p
    constructor
    · rintro ⟨⟨t, b, ht, fires⟩, inside⟩
      exact ⟨t, b, ht, (fires_append (Nat.not_le.1 inside)).1 fires⟩
    · rintro ⟨t, b, ht, fires⟩
      have hi := fires.1
      exact ⟨⟨t, b, ht, (fires_append hi).2 fires⟩, Nat.not_le.2 hi⟩
  rw [ncard_eq_add (N := fun p => bars.size ≤ p.1) finite]
  simp only [earlier]

section Counts

variable {s : ScanSettings} {bars more : Array Bar} (ascending : Bar.Ascending (bars ++ more).toList)
  (pip : Float) (key : RowKey)
include ascending

theorem ncard_countsFor_append :
    {c : Case | c.CountsFor s (bars ++ more) pip key}.ncard
      = {c : Case | c.CountsFor s bars pip key}.ncard
        + {c : Case | c.CountsFor s (bars ++ more) pip key ∧ c.Beyond s bars}.ncard := by
  rw [ncard_eq_add (N := fun c => c.Beyond s bars) (Case.finite_countsFor s (bars ++ more) pip key)]
  simp only [← Case.countsFor_append ascending]

theorem ncard_succeeds_append :
    {c : Case | c.CountsFor s (bars ++ more) pip key ∧ c.Succeeds s (bars ++ more) pip key}.ncard
      = {c : Case | c.CountsFor s bars pip key ∧ c.Succeeds s bars pip key}.ncard
        + {c : Case | (c.CountsFor s (bars ++ more) pip key ∧
            c.Succeeds s (bars ++ more) pip key) ∧ c.Beyond s bars}.ncard := by
  have finite : {c : Case | c.CountsFor s (bars ++ more) pip key ∧
      c.Succeeds s (bars ++ more) pip key}.Finite := by
    apply (Case.finite_countsFor s (bars ++ more) pip key).subset
    intro c both
    exact both.1
  have earlier : ∀ c : Case, ((c.CountsFor s (bars ++ more) pip key ∧
      c.Succeeds s (bars ++ more) pip key) ∧ ¬ c.Beyond s bars) ↔
        c.CountsFor s bars pip key ∧ c.Succeeds s bars pip key := by
    intro c
    constructor
    · rintro ⟨⟨counts, succeeds⟩, within⟩
      have before := (Case.countsFor_append ascending).2 ⟨counts, within⟩
      exact ⟨before, (Case.succeeds_append ascending before).1 succeeds⟩
    · rintro ⟨counts, succeeds⟩
      obtain ⟨now, within⟩ := (Case.countsFor_append ascending).1 counts
      exact ⟨⟨now, (Case.succeeds_append ascending counts).2 succeeds⟩, within⟩
  rw [ncard_eq_add (N := fun c => c.Beyond s bars) finite]
  simp only [earlier]

end Counts

/-- **More bars do not change the past.** Some bars and bars behind them are scanned, and the earlier
ones alone. The longer scan fires more often only at the bars put behind. Under every key it counts no
fewer cases, successes and failures, and what it counts more are cases that reach beyond the earlier
bars. A case that counted among the earlier bars counts for the same keys, with the same success. -/
theorem run_append {s : ScanSettings} {symbol : String} {bars more : Array Bar}
    (valid : validate symbol (bars ++ more) = .ok ()) (forward : ∀ o ∈ s.outcomes, 0 ≤ o.minutes)
    (proper : s.state.Proper) (cancelled : Nat → Bool) (uncancelled : ∀ i, cancelled i = false)
    (pip : Float) :
    ∃ before after, run s cancelled symbol bars pip = .ok before ∧
      run s cancelled symbol (bars ++ more) pip = .ok after ∧
      after.fired = before.fired + {p : Nat × Nat | (∃ t b, s.triggers[p.2]? = some t ∧
        Fires (bars ++ more) pip s.gap p.1 t b) ∧ bars.size ≤ p.1}.ncard ∧
      ∀ key,
        let old := before.tally.counts key
        let new := after.tally.counts key
        (old.total ≤ new.total ∧ old.successes ≤ new.successes ∧
          old.total - old.successes ≤ new.total - new.successes) ∧
        new.total = old.total + {c : Case | c.CountsFor s (bars ++ more) pip key ∧
          c.Beyond s bars}.ncard ∧
        new.successes = old.successes + {c : Case | (c.CountsFor s (bars ++ more) pip key ∧
          c.Succeeds s (bars ++ more) pip key) ∧ c.Beyond s bars}.ncard ∧
        ∀ c : Case, (c.CountsFor s bars pip key ↔
            c.CountsFor s (bars ++ more) pip key ∧ ¬ c.Beyond s bars) ∧
          (c.CountsFor s bars pip key →
            (c.Succeeds s (bars ++ more) pip key ↔ c.Succeeds s bars pip key)) := by
  have earlier := validate_of_append valid
  have ascending := ascending_of_valid valid
  have sooner := ascending_of_valid earlier
  refine ⟨_, _, run_eq earlier forward proper uncancelled pip,
    run_eq valid forward proper uncancelled pip, ?_, ?_⟩
  · dsimp only
    rw [sum_bursts ascending, sum_bursts sooner]
    exact ncard_fired_append pip
  intro key old new
  have total := ncard_countsFor_append (s := s) ascending pip key
  rw [← total_samples ascending proper pip key, ← total_samples sooner proper pip key] at total
  change new.total = old.total + _ at total
  have successes := ncard_succeeds_append (s := s) ascending pip key
  rw [← successes_samples ascending proper pip key,
    ← successes_samples sooner proper pip key] at successes
  change new.successes = old.successes + _ at successes
  -- Of the cases that are new, no more succeed than there are.
  have fewer : {c : Case | (c.CountsFor s (bars ++ more) pip key ∧
        c.Succeeds s (bars ++ more) pip key) ∧ c.Beyond s bars}.ncard
      ≤ {c : Case | c.CountsFor s (bars ++ more) pip key ∧ c.Beyond s bars}.ncard := by
    apply Set.ncard_le_ncard
    · intro c added
      exact ⟨added.1.1, added.2⟩
    · apply (Case.finite_countsFor s (bars ++ more) pip key).subset
      intro c added
      exact added.1
  refine ⟨⟨by omega, by omega, by omega⟩, total, successes, ?_⟩
  intro c
  exact ⟨Case.countsFor_append ascending, Case.succeeds_append ascending⟩

/-- The jump without its last bar: the trigger fires at one bar, and nothing is known of what follows.
The last bar lets it fire once more, and makes a case of the first time. -/
theorem run_append_jump :
    validate "EURUSD" (jump.extract 0 2 ++ jump.extract 2) = .ok () ∧
    (∀ o ∈ jumpSettings.outcomes, 0 ≤ o.minutes) ∧ jumpSettings.state.Proper ∧
    {p : Nat × Nat | (∃ t b, jumpSettings.triggers[p.2]? = some t ∧
      Fires (jump.extract 0 2 ++ jump.extract 2) 0.0001 60000 p.1 t b) ∧
        (jump.extract 0 2).size ≤ p.1}.ncard = 1 ∧
    {c : Case | c.CountsFor jumpSettings (jump.extract 0 2 ++ jump.extract 2) 0.0001
      ⟨"M8_W1", "K15_T1", .up, ⟨[⟨"vol", "normal"⟩]⟩⟩ ∧
        c.Beyond jumpSettings (jump.extract 0 2)}.ncard = 1 := by
  have forward : ∀ o ∈ jumpSettings.outcomes, 0 ≤ o.minutes := by decide +kernel
  have valid : validate "EURUSD" (jump.extract 0 2 ++ jump.extract 2) = .ok () := jump_valid
  refine ⟨valid, forward, jumpSettings_proper, ?_⟩
  obtain ⟨before, after, sooner, later, fired, counts⟩ :=
    run_append valid forward jumpSettings_proper (fun _ => false) (fun _ => rfl) 0.0001
  have was : (run jumpSettings (fun _ => false) "EURUSD" (jump.extract 0 2) 0.0001).toOption.map
      (fun scan => (scan.fired,
        (scan.tally.counts ⟨"M8_W1", "K15_T1", .up, ⟨[⟨"vol", "normal"⟩]⟩⟩).total))
        = some (1, 0) := by decide +kernel
  have is : (run jumpSettings (fun _ => false) "EURUSD"
      (jump.extract 0 2 ++ jump.extract 2) 0.0001).toOption.map
      (fun scan => (scan.fired,
        (scan.tally.counts ⟨"M8_W1", "K15_T1", .up, ⟨[⟨"vol", "normal"⟩]⟩⟩).total))
        = some (2, 1) := by decide +kernel
  rw [sooner] at was
  rw [later] at is
  obtain ⟨one, none⟩ := Prod.mk.inj (Option.some_inj.1 was)
  obtain ⟨two, first⟩ := Prod.mk.inj (Option.some_inj.1 is)
  have total := (counts ⟨"M8_W1", "K15_T1", .up, ⟨[⟨"vol", "normal"⟩]⟩⟩).2.1
  rw [one, two] at fired
  rw [none, first, Nat.zero_add] at total
  exact ⟨(Nat.add_left_cancel (fired : 1 + 1 = _)).symm, total.symm⟩

end FxPulse.Scan
