import FxPulse.Proofs.Checked.Counts
import FxPulse.Proofs.Checked.Matching
import FxPulse.Proofs.Checked.Series
import FxPulse.Proofs.Edge.Scanned

/-!
# `Proofs/Checked/Live.lean` — a scan and live matching in words

A scan and live matching compute the same times in different ways. Where words hold them the two see the same
event (`live_perm_scanned`), and what a scan has counted is found again (`match_finds_scanned`).

A window that no word holds is a window still, of another length; and then the two may part, as a scan looks
for a reference in front of its bar only and live matching among all points.
-/

set_option autoImplicit false

namespace FxPulse

open FxPulse.Number

/-- Fewer points to look back on ask for no more. -/
theorem Trigger.Fits.mono {t : Trigger} {gap : Int} {points fewer : Array Point} {current : Point}
    (fits : t.Fits gap points current) (among : ∀ p ∈ fewer, p ∈ points) : t.Fits gap fewer current :=
  ⟨fits.window, fits.span, fits.target, fun p mem => fits.elapsed p (among p mem)⟩

namespace Checked

open FxPulse.Scan

variable {b : Build} {s : ScanSettings} {symbol : String} {bars : Array Bar} {i : Nat}
  {series : Series}

theorem filled_of_offerAll (hi : i < bars.size) {retention : Int} {capacity : Nat}
    (filled : seriesOfferAll b (Series.new retention capacity) (closingsUpTo bars i) = .ok series)
    (whole : series.size = i + 1) : series.points.toList = closingsUpTo bars i := by
  refine seriesOfferAll_whole filled (whole.trans ?_)
  simp only [closingsUpTo, List.length_take, Array.length_toList, Array.size_map]
  omega

/-- What a scan asks of words at a bar, live matching asks at the end of the closes up to it. -/
theorem fitsAt_filled (hi : i < bars.size) (fits : s.FitsAt (bars.extract 0 (i + 1)) bars[i])
    (filled : series.points.toList = closingsUpTo bars i) (minTotal : Nat) (pips : PipSizes) :
    (s.live minTotal pips).FitsAt series := by
  intro current newest t listed
  rw [latest?_filled hi filled] at newest
  cases newest
  have asked : t ∈ s.triggers := (Trigger.prioritize_perm s.triggers).mem_iff.1 listed
  refine (fits.triggers t asked).mono fun p mem => ?_
  have there : p ∈ closingsUpTo bars i := filled ▸ Array.mem_toList_iff.2 mem
  rw [← Array.mem_toList_iff]
  simpa [closingsUpTo, List.extract_eq_take_drop, List.map_take] using there

/-- **A scan and live matching see the same event.** If the bars are valid and each is in a minute of its own,
windows are a minute at least, the state is proper, and words hold what is computed at a bar of the bars up to
it: at the end of a series into which the closes of these bars have been pushed, and which has dropped none, the
bursts are those that the scan finds at the bar, with the same directions and moves and in the order of live
matching, and they are those of the triggers that fire there. The state that is matched, of as many closes as
the look-back, is the state that the scan finds, which is that of all closes. -/
theorem live_perm_scanned (valid : validate symbol bars = .ok ())
    (apart : Point.OnePerMinute (bars.map Bar.closing).toList)
    (windows : ∀ t ∈ s.triggers, 1 ≤ t.minutes) (proper : s.state.Proper) (hi : i < bars.size)
    (fits : s.FitsAt (bars.extract 0 (i + 1)) bars[i]) {retention : Int} {capacity : Nat}
    (filled : seriesOfferAll b (Series.new retention capacity) (closingsUpTo bars i) = .ok series)
    (whole : series.size = i + 1) (minTotal : Nat) (pips : PipSizes) (pip : Float) :
    ∃ count state found bursts, lookback b s.state = .ok count ∧
      compute b s.state (recentMinuteCloses series.points count).toArray = .ok state ∧
      compute b s.state (closesUpTo bars i) = .ok state ∧
      triggersAt b s bars i pip = .ok found ∧ (∀ f ∈ found, f.2 = state) ∧
      firedBy b (s.live minTotal pips) series pip = .ok bursts ∧ bursts.Perm (found.map Prod.fst) ∧
      ∀ burst, burst ∈ bursts ↔ ∃ t ∈ s.triggers, Fires bars pip s.gap i t burst := by
  have points := filled_of_offerAll hi filled whole
  obtain ⟨state, found, live, scanned, triggered, own, same, fires⟩ :=
    live_perm_triggersAt valid apart windows proper hi points minTotal pips pip
  refine ⟨s.state.lookback, state, found, _, lookback_eq fits.state b, ?_, ?_, ?_, own, ?_, same, fires⟩
  · exact (compute_completes proper fits.state b _).eq_ok live
  · exact (compute_completes proper fits.state b _).eq_ok scanned
  · exact (triggersAt_completes hi pip fits proper).eq_ok triggered
  · exact firedBy_eq (fitsAt_filled hi fits points minTotal pips) b pip

/-- The first two closes of the jump in a series. -/
theorem exists_jump_filled :
    ∃ series, seriesOfferAll .wrapping (Series.new 600000 100) (closingsUpTo jump 1) = .ok series ∧
      series.size = 2 := by
  have computed : (seriesOfferAll .wrapping (Series.new 600000 100) (closingsUpTo jump 1)).toOption.any
      (fun series => series.size = 2) = true := by decide +kernel
  obtain ⟨series, filled, size⟩ := exists_ok_of_any computed
  exact ⟨series, filled, of_decide_eq_true size⟩

/-- In the second minute of the jump both see the trigger fire. -/
theorem live_perm_scanned_jump :
    ∃ series state found bursts,
      seriesOfferAll .wrapping (Series.new 600000 100) (closingsUpTo jump 1) = .ok series ∧
      lookback .wrapping jumpSettings.state = .ok 2 ∧
      compute .wrapping jumpSettings.state (recentMinuteCloses series.points 2).toArray = .ok state ∧
      triggersAt .wrapping jumpSettings jump 1 0.0001 = .ok found ∧ found.length = 1 ∧
      firedBy .wrapping (jumpSettings.live 1 (PipSizes.ofList [])) series 0.0001 = .ok bursts ∧
      bursts.Perm (found.map Prod.fst) ∧ ∀ f ∈ found, f.2 = state := by
  obtain ⟨series, filled, size⟩ := exists_jump_filled
  have fits : jumpSettings.FitsAt (jump.extract 0 2) jump[1] := by decide +kernel
  obtain ⟨count, state, found, bursts, counted, live, -, triggered, own, fired, same, -⟩ :=
    live_perm_scanned jump_valid jump_apart (by decide +kernel) jumpSettings_proper (by decide) fits
      filled size 1 (PipSizes.ofList []) 0.0001
  have two : lookback .wrapping jumpSettings.state = .ok 2 := by decide +kernel
  rw [two] at counted
  obtain rfl := Except.ok.inj counted
  have one : (triggersAt .wrapping jumpSettings jump 1 0.0001).toOption.map List.length = some 1 := by
    decide +kernel
  rw [triggered] at one
  exact ⟨series, state, found, bursts, filled, two, live, triggered, Option.some.inj one, fired, same, own⟩

/-- What a scan asks of words at a bar it asks of the bars up to it. -/
theorem fitsAt_upTo (hi : i < bars.size) (fits : s.Fits bars) :
    s.FitsAt (bars.extract 0 (i + 1)) bars[i] := by
  refine (fits.back _ (Array.getElem_mem hi)).mono fun other mem => ?_
  rw [← Array.mem_toList_iff, Array.toList_extract] at mem
  exact Array.mem_toList_iff.1 (List.mem_of_mem_drop (List.mem_of_mem_take mem))

/-- **A scanned context is found again.** With the table of a scan, and a store that holds the closes of the
bars up to some bar, where words hold what the scan computes: live matching has no trigger if none fires there;
and if one does, and some outcome can be judged there, it matches the state at the bar exactly, under the first
trigger in order of priority that fires. -/
theorem match_finds_scanned (valid : validate symbol bars = .ok ())
    (apart : Point.OnePerMinute (bars.map Bar.closing).toList)
    (windows : ∀ t ∈ s.triggers, 1 ≤ t.minutes) (horizons : ∀ o ∈ s.outcomes, 1 ≤ o.minutes)
    (proper : s.state.Proper) (fits : s.Fits bars) (cancelled : Nat → Bool)
    (uncancelled : ∀ i, cancelled i = false) (hi : i < bars.size) {retention : Int} {capacity : Nat}
    (filled : seriesOfferAll b (Series.new retention capacity) (closingsUpTo bars i) = .ok series)
    (whole : series.size = i + 1) {store : TickStore} (held : store.read? symbol = some series)
    {minTotal : Nat} (few : minTotal ≤ 1) (pips : PipSizes) (alpha : Float) :
    ∃ scan found, run b s cancelled symbol bars (pips.pip symbol) = .ok scan ∧
      triggersAt b s bars i (pips.pip symbol) = .ok found ∧
      (found = [] →
        matchEdge b (s.live minTotal pips) store (Table.ofRows (scan.rows alpha)) symbol
          = .ok (.noMatch .noTrigger)) ∧
      (found ≠ [] → (∃ o ∈ s.outcomes, Judged bars i o) →
        ∃ reading earlier first later burst,
          matchEdge b (s.live minTotal pips) store (Table.ofRows (scan.rows alpha)) symbol
            = .ok (.matched reading) ∧
          Trigger.prioritize s.triggers = earlier ++ first :: later ∧
          (∀ t ∈ earlier, ∀ burst, ¬ Fires bars (pips.pip symbol) s.gap i t burst) ∧
          Fires bars (pips.pip symbol) s.gap i first burst ∧
          reading.exact = true ∧ reading.trigger = first.label ∧
          reading.direction = burst.direction ∧ reading.movePips = burst.movePips ∧
          ∀ f ∈ found, f.2 = reading.state) := by
  have points := filled_of_offerAll hi filled whole
  have upTo := fitsAt_upTo hi fits
  have forward : ∀ o ∈ s.outcomes, 0 ≤ o.minutes := fun o ho => by
    have := horizons o ho
    omega
  obtain ⟨scan, found, ran, triggered, silent, matched⟩ := matchEdge_scanned valid apart windows horizons
    proper cancelled uncancelled hi points held few pips alpha
  have live : ∀ kept, store.read? symbol = some kept → (s.live minTotal pips).FitsAt kept := by
    intro kept there
    obtain rfl := Option.some_inj.1 (held.symm.trans there)
    exact fitsAt_filled hi upTo points minTotal pips
  have matching := matchEdge_completes (s := s.live minTotal pips) proper upTo.state live b
    (scan.rows alpha)
  refine ⟨scan, found, ?_, (triggersAt_completes hi _ upTo proper).eq_ok triggered, fun none_found => ?_,
    fun some_found judged => ?_⟩
  · rw [(run_endsAs forward proper cancelled symbol fits _).1, ran]
    rfl
  · exact matching.eq_ok (silent none_found)
  · obtain ⟨reading, earlier, first, later, burst, found_again, rest⟩ := matched some_found judged
    exact ⟨reading, earlier, first, later, burst, matching.eq_ok found_again, rest⟩

/-- In the second minute of the jump live matching finds the one case that was counted there. -/
theorem match_finds_scanned_jump :
    ∃ series scan found reading,
      seriesOfferAll .wrapping (Series.new 600000 100) (closingsUpTo jump 1) = .ok series ∧
      run .wrapping jumpSettings (fun _ => false) "EURUSD" jump ((PipSizes.ofList []).pip "EURUSD")
        = .ok scan ∧
      triggersAt .wrapping jumpSettings jump 1 ((PipSizes.ofList []).pip "EURUSD") = .ok found ∧
      matchEdge .wrapping (jumpSettings.live 1 (PipSizes.ofList []))
        ⟨(∅ : Std.ExtTreeMap _ _).insert "EURUSD" series, 600000⟩ (Table.ofRows (scan.rows 1.0))
        "EURUSD" = .ok (.matched reading) ∧
      reading.exact = true ∧ ∀ f ∈ found, f.2 = reading.state := by
  obtain ⟨series, filled, size⟩ := exists_jump_filled
  have held : TickStore.read? ⟨(∅ : Std.ExtTreeMap _ _).insert "EURUSD" series, 600000⟩ "EURUSD"
      = some series := by
    have nonempty : series.isEmpty = false := by
      rw [Series.isEmpty, Array.isEmpty_eq_false_iff]
      rintro empty
      rw [Series.size, empty] at size
      cases size
    simp [TickStore.read?, nonempty]
  have judged : ∃ o ∈ jumpSettings.outcomes, Judged jump 1 o :=
    ⟨⟨15.0, 1⟩, List.mem_singleton_self _, by decide, by decide +kernel, by decide +kernel⟩
  have fits : jumpSettings.Fits jump := by decide +kernel
  obtain ⟨scan, found, ran, triggered, -, matching⟩ :=
    match_finds_scanned jump_valid jump_apart (by decide +kernel) (by decide +kernel)
      jumpSettings_proper fits (fun _ => false) (fun _ => rfl) (by decide) filled size held
      (Nat.le_refl 1) (PipSizes.ofList []) 1.0
  have some_found : found ≠ [] := by
    have one : (triggersAt .wrapping jumpSettings jump 1
        ((PipSizes.ofList []).pip "EURUSD")).toOption.map List.length = some 1 := by decide +kernel
    rw [triggered] at one
    rintro rfl
    cases one
  obtain ⟨reading, _, _, _, _, matched, -, -, -, exact_state, -, -, -, own⟩ :=
    matching some_found judged
  exact ⟨series, scan, found, reading, filled, ran, triggered, matched, exact_state, own⟩

end Checked

end FxPulse
