import FxPulse.Proofs.Engine.Registered
import FxPulse.Proofs.Strength.Tracked

/-!
# `Proofs/Engine/Beside.lean` — two runs that strengths cannot tell apart

Ticks of instruments that are no pair of tracked currencies go into the store like all others, but they
have no vote on strengths, and no oscillator listens to them. What is heeded of a run are the ticks of
tracked pairs and the refreshes. Two runs with the same heeded actions are followed here side by side
(`Beside`): what is heeded happens in both, and everything else in one or the other.

> Tracked pairs have the same series in both runs, so that strengths are the same, and both listen to the
> same sources (`Beside.akin`). And where one run has an answer, so has the other (`exists_beside`).
-/

set_option autoImplicit false

namespace FxPulse

open TickStore (SameOn)

namespace Engine

/-! ## What is heeded -/

/-- What an action is to strengths: a tick of a tracked pair, a refresh, or nothing. -/
def heeded? (currencies : List String) : Action → Option (Option Tick)
  | .ingest t => if isTracked currencies t.instrument then some (some t) else none
  | .refresh _ => some none
  | .setTable _ => none

def heeded (currencies : List String) (actions : List Action) : List (Option Tick) :=
  actions.filterMap (heeded? currencies)

theorem heeded_concat (currencies : List String) (actions : List Action) (action : Action) :
    heeded currencies (actions ++ [action])
      = heeded currencies actions ++ (heeded? currencies action).toList := by
  rw [heeded, List.filterMap_append, heeded]
  cases own : heeded? currencies action with
  | none => rw [List.filterMap_cons_none own, List.filterMap_nil, Option.toList_none]
  | some heeds => rw [List.filterMap_cons_some own, List.filterMap_nil, Option.toList_some]

/-- An instrument that is not tracked has no sources. -/
theorem pairSources_eq_nil {e : Engine} {instrument : String}
    (untracked : isTracked e.currencies instrument = false) : e.pairSources instrument = [] := by
  rw [List.eq_nil_iff_forall_not_mem]
  intro source mem
  obtain ⟨pair, named, within, -⟩ := mem_pairSources_iff.1 mem
  rw [isTracked, named, Option.any_some, within] at untracked
  cases untracked

/-- Sources come of the tracked pairs alone. -/
theorem sources_eq_filter (e : Engine) :
    e.sources = (e.currencies.map fun c => .strength c e.oscillators.window)
      ++ (e.store.instruments.filter (isTracked e.currencies)).flatMap e.pairSources := by
  rw [sources_eq]
  congr 1
  induction e.store.instruments with
  | nil => rfl
  | cons instrument rest ih =>
    cases tracked : isTracked e.currencies instrument with
    | true => rw [List.filter_cons_of_pos tracked, List.flatMap_cons, List.flatMap_cons, ih]
    | false =>
      rw [List.filter_cons_of_neg (by rw [tracked]; exact Bool.false_ne_true), List.flatMap_cons,
        pairSources_eq_nil tracked, List.nil_append, ih]

/-! ## Single steps -/

theorem windows_of_perform {e after : Engine} {action : Action} (h : e.perform action = .ok after) :
    after.windows = e.windows := by
  cases action with
  | ingest t =>
    obtain rfl := Except.ok.inj h
    rcases e.ingest_eq t with ⟨store, point, -, eq⟩ | eq <;> rw [eq]
  | setTable table =>
    obtain rfl := Except.ok.inj h
    rfl
  | refresh watch =>
    obtain ⟨summary, refreshed⟩ := perform_refresh_eq_ok h
    obtain ⟨_, _, _, _, _, _, -, -, -, rfl, -⟩ := refresh_eq_ok refreshed
    rfl

/-- Two engines have the same samples of strengths, and the same oscillators, which have read the same. -/
structure Alike (a b : Engine) : Prop where
  strengthHistory : b.strengthHistory = a.strengthHistory
  bank : b.bank = a.bank
  published : b.published = a.published

theorem Alike.refl (e : Engine) : Alike e e := ⟨rfl, rfl, rfl⟩

theorem Alike.symm {a b : Engine} (h : Alike a b) : Alike b a :=
  ⟨h.strengthHistory.symm, h.bank.symm, h.published.symm⟩

theorem Alike.trans {a b third : Engine} (h : Alike a b) (more : Alike b third) : Alike a third :=
  ⟨more.strengthHistory.trans h.strengthHistory, more.bank.trans h.bank, more.published.trans h.published⟩

theorem alike_ingest (e : Engine) (t : Tick) :
    Alike e (e.ingest t).1 ∧ (e.ingest t).1.sampledAt = e.sampledAt := by
  rcases e.ingest_eq t with ⟨store, point, -, eq⟩ | eq
  all_goals
    rw [eq]
    exact ⟨⟨rfl, rfl, rfl⟩, rfl⟩

/-- Between refreshes nothing is sampled, and nothing is read. -/
theorem alike_of_perform {e after : Engine} {action : Action} (quiet : action.isRefresh = false)
    (h : e.perform action = .ok after) : Alike e after ∧ after.sampledAt = e.sampledAt := by
  cases action with
  | refresh watch => cases quiet
  | setTable table =>
    obtain rfl := Except.ok.inj h
    exact ⟨⟨rfl, rfl, rfl⟩, rfl⟩
  | ingest t =>
    obtain rfl := Except.ok.inj h
    exact e.alike_ingest t

theorem isRefresh_of_unheeded {currencies : List String} {action : Action}
    (unheeded : heeded? currencies action = none) : action.isRefresh = false := by
  cases action with
  | refresh watch => cases unheeded
  | setTable table => rfl
  | ingest t => rfl

theorem exists_perform_of_unheeded {currencies : List String} {action : Action}
    (unheeded : heeded? currencies action = none) (e : Engine) :
    ∃ after, e.perform action = .ok after := by
  cases action with
  | refresh watch => cases unheeded
  | setTable table => exact ⟨_, rfl⟩
  | ingest t => exact ⟨_, rfl⟩

/-- An action that is heeded is a tick of a tracked pair, or a refresh. -/
theorem heeded?_eq_some {currencies : List String} {action : Action} {heeds : Option Tick}
    (h : heeded? currencies action = some heeds) :
    (∃ t, action = .ingest t ∧ heeds = some t ∧ isTracked currencies t.instrument = true) ∨
      ∃ watch, action = .refresh watch ∧ heeds = none := by
  cases action with
  | setTable table => cases h
  | refresh watch =>
    cases h
    exact .inr ⟨watch, rfl, rfl⟩
  | ingest t =>
    cases tracked : isTracked currencies t.instrument with
    | true =>
      rw [heeded?, if_pos tracked] at h
      exact .inl ⟨t, rfl, (Option.some.inj h).symm, tracked⟩
    | false =>
      rw [heeded?, tracked] at h
      cases h

/-! ## What is the same in any case -/

/-- Two engines have the same tracked pairs, and listen to the same sources. -/
structure Akin (c : Config) (a b : Engine) : Prop where
  windows : b.windows = a.windows
  store : SameOn (isTracked c.currencies) a.store b.store
  specs : b.bank.entries.map (·.spec) = a.bank.entries.map (·.spec)

namespace Akin

variable {c : Config} {a b a' b' : Engine}

theorem symm (h : Akin c a b) : Akin c b a := ⟨h.windows.symm, h.store.symm, h.specs.symm⟩

theorem trans {third : Engine} (h : Akin c a b) (more : Akin c b third) : Akin c a third :=
  ⟨more.windows.trans h.windows, h.store.trans more.store, more.specs.trans h.specs⟩

theorem of_unheeded {action : Action} (unheeded : heeded? c.currencies action = none)
    (h : a.perform action = .ok a') : Akin c a a' := by
  refine ⟨windows_of_perform h, ?_, ?_⟩
  · rw [(perform_advances h).store]
    cases action with
    | refresh watch => cases unheeded
    | setTable table => exact SameOn.refl _
    | ingest t =>
      cases tracked : isTracked c.currencies t.instrument with
      | true =>
        rw [heeded?, if_pos tracked] at unheeded
        cases unheeded
      | false => exact SameOn.after_of_not _ tracked
  · rw [(alike_of_perform (isRefresh_of_unheeded unheeded) h).1.bank]

theorem ingest (h : Akin c a b) {t : Tick} (tracked : isTracked c.currencies t.instrument = true) :
    Akin c (a.ingest t).1 (b.ingest t).1 := by
  have left : a.perform (.ingest t) = .ok (a.ingest t).1 := rfl
  have right : b.perform (.ingest t) = .ok (b.ingest t).1 := rfl
  constructor
  · rw [windows_of_perform left, windows_of_perform right, h.windows]
  · rw [store_ingest, store_ingest]
    exact h.store.after tracked
  · rw [(a.alike_ingest t).1.bank, (b.alike_ingest t).1.bank, h.specs]

section Configured

variable (left : a.Configured c) (right : b.Configured c) (akin : Akin c a b)
include left right akin

theorem strength_eq : b.strength = a.strength := by
  have same := akin.store.strengths a.windows
  unfold Engine.strength
  rw [left.currencies, right.currencies, akin.windows]
  exact same

theorem specs_eq : b.specs = a.specs := by
  have oscillators := right.oscillators.trans left.oscillators.symm
  have currencies := right.currencies.trans left.currencies.symm
  have instruments := akin.store.instruments
  rw [← left.currencies] at instruments
  rw [Engine.specs, Engine.specs, oscillators, sources_eq_filter, sources_eq_filter, currencies,
    oscillators, instruments, pairSources_congr oscillators currencies]

/-- Where one can be refreshed, so can the other, and both set up the same. -/
theorem exists_refresh (proper : c.state.Proper) {watch : Stopwatch}
    {summary : RefreshSummary} (h : a.refresh watch = .ok (a', summary)) (again : Stopwatch) :
    ∃ answer, b.refresh again = .ok answer := by
  obtain ⟨bank, ensured, -⟩ := refresh_sets_up h
  obtain ⟨grown, ensured, -⟩ := Bank.ensureAll_congr akin.specs ensured
  rw [← specs_eq left right akin] at ensured
  refine exists_refresh_of_ensured ensured ?_ again
  rw [right.edgeSettings]
  exact proper

theorem refresh {watch again : Stopwatch} {summary other : RefreshSummary}
    (h : a.refresh watch = .ok (a', summary)) (more : b.refresh again = .ok (b', other)) :
    Akin c a' b' := by
  have first : a.perform (.refresh watch) = .ok a' := perform_of_refresh h
  have second : b.perform (.refresh again) = .ok b' := perform_of_refresh more
  constructor
  · rw [windows_of_perform first, windows_of_perform second, akin.windows]
  · rw [(perform_advances first).store, (perform_advances second).store]
    exact akin.store
  · obtain ⟨bank, ensured, setUp, -⟩ := refresh_sets_up h
    obtain ⟨grown, ensuredToo, setUpToo, -⟩ := refresh_sets_up more
    obtain ⟨_, again, same⟩ := Bank.ensureAll_congr akin.specs ensured
    rw [← specs_eq left right akin, ensuredToo] at again
    obtain ⟨rfl, -⟩ := Prod.mk.inj (Except.ok.inj again)
    rw [setUp, setUpToo, same]

end Configured

end Akin

/-! ## Side by side -/

/-- Two runs with the same heeded actions, and where they lead. -/
inductive Beside (c : Config) (table other : Table) :
    List Action → List Action → Engine → Engine → Prop
  | start : Beside c table other [] [] (new c table) (new c other)
  | left {actions others : List Action} {a b after : Engine} {action : Action}
      (before : Beside c table other actions others a b) (unheeded : heeded? c.currencies action = none)
      (h : a.perform action = .ok after) : Beside c table other (actions ++ [action]) others after b
  | right {actions others : List Action} {a b after : Engine} {action : Action}
      (before : Beside c table other actions others a b) (unheeded : heeded? c.currencies action = none)
      (h : b.perform action = .ok after) : Beside c table other actions (others ++ [action]) a after
  | ingest {actions others : List Action} {a b : Engine} {t : Tick}
      (before : Beside c table other actions others a b)
      (tracked : isTracked c.currencies t.instrument = true) :
      Beside c table other (actions ++ [.ingest t]) (others ++ [.ingest t]) (a.ingest t).1 (b.ingest t).1
  | refresh {actions others : List Action} {a b a' b' : Engine} {watch again : Stopwatch}
      {summary summary' : RefreshSummary} (before : Beside c table other actions others a b)
      (h : a.refresh watch = .ok (a', summary)) (more : b.refresh again = .ok (b', summary')) :
      Beside c table other (actions ++ [.refresh watch]) (others ++ [.refresh again]) a' b'

namespace Beside

variable {c : Config} {table other : Table} {actions others : List Action} {a b : Engine}

theorem ran (h : Beside c table other actions others a b) :
    (new c table).performAll actions = .ok a ∧ (new c other).performAll others = .ok b := by
  induction h with
  | start => exact ⟨rfl, rfl⟩
  | left before unheeded h ih => exact ⟨performAll_concat.2 ⟨_, ih.1, h⟩, ih.2⟩
  | right before unheeded h ih => exact ⟨ih.1, performAll_concat.2 ⟨_, ih.2, h⟩⟩
  | ingest before tracked ih =>
    exact ⟨performAll_concat.2 ⟨_, ih.1, rfl⟩, performAll_concat.2 ⟨_, ih.2, rfl⟩⟩
  | refresh before h more ih =>
    exact ⟨performAll_concat.2 ⟨_, ih.1, perform_of_refresh h⟩,
      performAll_concat.2 ⟨_, ih.2, perform_of_refresh more⟩⟩

theorem heeded_eq (h : Beside c table other actions others a b) :
    heeded c.currencies others = heeded c.currencies actions := by
  induction h with
  | start => rfl
  | left before unheeded h ih => rw [ih, heeded_concat, unheeded, Option.toList_none, List.append_nil]
  | right before unheeded h ih => rw [heeded_concat, unheeded, Option.toList_none, List.append_nil, ih]
  | ingest before tracked ih => rw [heeded_concat, heeded_concat, ih]
  | refresh before h more ih =>
    rw [heeded_concat, heeded_concat, ih]
    rfl

theorem reachable (h : Beside c table other actions others a b) : Reachable c a ∧ Reachable c b :=
  ⟨(Reachable.new table).performAll h.ran.1, (Reachable.new other).performAll h.ran.2⟩

/-- **Tracked pairs and sources are the same on both sides.** -/
theorem akin (h : Beside c table other actions others a b) : Akin c a b := by
  induction h with
  | start => exact ⟨rfl, SameOn.refl _, rfl⟩
  | left before unheeded h ih => exact (Akin.of_unheeded unheeded h).symm.trans ih
  | right before unheeded h ih => exact ih.trans (Akin.of_unheeded unheeded h)
  | ingest before tracked ih => exact ih.ingest tracked
  | refresh before h more ih =>
    exact Akin.refresh before.reachable.1.configured before.reachable.2.configured ih h more

/-- What holds at the start, and is kept both where nothing is sampled or read and by corresponding
refreshes, holds at any time. -/
theorem keeps {R : Engine → Engine → Prop} (h : Beside c table other actions others a b)
    (start : R (new c table) (new c other))
    (quiet : ∀ {a b a' b'}, R a b → Alike a a' ∧ a'.sampledAt = a.sampledAt →
      Alike b b' ∧ b'.sampledAt = b.sampledAt → R a' b')
    (refreshes : ∀ {early early' watch again a b a' b' summary summary'},
      early ++ [.refresh watch] <+: actions → early' ++ [.refresh again] <+: others →
        Beside c table other early early' a b → a.refresh watch = .ok (a', summary) →
          b.refresh again = .ok (b', summary') → R a b → R a' b') : R a b := by
  induction h with
  | start => exact start
  | left before unheeded h ih =>
    have now := ih fun early early' => refreshes (early.trans (List.prefix_append _ _)) early'
    exact quiet now (alike_of_perform (isRefresh_of_unheeded unheeded) h) ⟨Alike.refl _, rfl⟩
  | right before unheeded h ih =>
    have now := ih fun early early' => refreshes early (early'.trans (List.prefix_append _ _))
    exact quiet now ⟨Alike.refl _, rfl⟩ (alike_of_perform (isRefresh_of_unheeded unheeded) h)
  | @ingest _ _ a b t before tracked ih =>
    have now := ih fun early early' => refreshes (early.trans (List.prefix_append _ _))
      (early'.trans (List.prefix_append _ _))
    exact quiet now (a.alike_ingest t) (b.alike_ingest t)
  | refresh before h more ih =>
    have now := ih fun early early' => refreshes (early.trans (List.prefix_append _ _))
      (early'.trans (List.prefix_append _ _))
    exact refreshes List.prefix_rfl List.prefix_rfl before h more now

/-- Unheeded actions can be added on the other side. -/
theorem append_unheeded (h : Beside c table other actions others a b) {more : List Action}
    (unheeded : ∀ action ∈ more, heeded? c.currencies action = none) :
    ∃ after, Beside c table other actions (others ++ more) a after := by
  induction more generalizing others b with
  | nil => exact ⟨b, by rwa [List.append_nil]⟩
  | cons action rest ih =>
    obtain ⟨own, later⟩ := List.forall_mem_cons.1 unheeded
    obtain ⟨after, performed⟩ := exists_perform_of_unheeded own b
    have next := h.right own performed
    obtain ⟨last, beside⟩ := ih next later
    exact ⟨last, by rwa [List.append_assoc] at beside⟩

/-- A heeded action that can be taken on one side can be taken on the other. -/
theorem exists_both (proper : c.state.Proper) (h : Beside c table other actions others a b)
    {action again : Action} {heeds : Option Tick} (own : heeded? c.currencies action = some heeds)
    (same : heeded? c.currencies again = some heeds) {after : Engine}
    (performed : a.perform action = .ok after) :
    ∃ last, Beside c table other (actions ++ [action]) (others ++ [again]) after last := by
  rcases heeded?_eq_some own with ⟨t, rfl, rfl, tracked⟩ | ⟨watch, rfl, rfl⟩
  · rcases heeded?_eq_some same with ⟨t', rfl, heeds, -⟩ | ⟨watch', -, heeds⟩
    · cases heeds
      cases performed
      exact ⟨_, h.ingest tracked⟩
    · cases heeds
  · rcases heeded?_eq_some same with ⟨t', -, heeds, -⟩ | ⟨watch', rfl, -⟩
    · cases heeds
    · obtain ⟨summary, refreshed⟩ := perform_refresh_eq_ok performed
      obtain ⟨⟨last, summary'⟩, more⟩ := h.akin.exists_refresh h.reachable.1.configured
        h.reachable.2.configured proper refreshed watch'
      exact ⟨last, h.refresh refreshed more⟩

end Beside

/-- **A run beside another.** If a run has an answer, so has each that has the same heeded actions. -/
theorem exists_beside {c : Config} {table other : Table} {actions others : List Action} {a : Engine}
    (proper : c.state.Proper) (same : heeded c.currencies others = heeded c.currencies actions)
    (ran : (new c table).performAll actions = .ok a) :
    ∃ b, Beside c table other actions others a b := by
  -- Action by action of the given run; each heeded one brings along a stretch of the other run.
  induction actions using List.reverseRecOn generalizing others a with
  | nil =>
    cases ran
    exact Beside.start.append_unheeded (List.filterMap_eq_nil_iff.1 same)
  | append_singleton front action ih =>
    obtain ⟨mid, first, last⟩ := performAll_concat.1 ran
    cases own : heeded? c.currencies action with
    | none =>
      have shorter : heeded c.currencies others = heeded c.currencies front := by
        rw [same, heeded_concat, own, Option.toList_none, List.append_nil]
      obtain ⟨b, beside⟩ := ih shorter first
      exact ⟨b, beside.left own last⟩
    | some heeds =>
      have longer : heeded c.currencies others = heeded c.currencies front ++ [heeds] := by
        rw [same, heeded_concat, own, Option.toList_some]
      obtain ⟨early, late, rfl, before, behind⟩ := List.filterMap_eq_append_iff.1 longer
      obtain ⟨between, again, rest, rfl, quiet, own', nothing⟩ := List.filterMap_eq_cons_iff.1 behind
      obtain ⟨b, beside⟩ := ih before first
      obtain ⟨b, beside⟩ := beside.append_unheeded quiet
      obtain ⟨b, beside⟩ := beside.exists_both proper own own' last
      obtain ⟨b, beside⟩ := beside.append_unheeded (List.filterMap_eq_nil_iff.1 nothing)
      exact ⟨b, by rwa [List.append_assoc, List.append_assoc] at beside⟩

end Engine

end FxPulse
