import FxPulse.Proofs.History.TickStore
import FxPulse.Strength.Votes
import Mathlib.Data.List.Sort

/-!
# `Proofs/Strength/Tracked.lean` — strengths come of tracked pairs

An instrument votes on strengths only if it quotes one tracked currency in another. So two stores that
have the same series for all tracked pairs give rise to the same strengths, whatever else is in them:

> `SameOn.strengths`, where `SameOn` is kept by any tick of an instrument that is not tracked, in either
> store, and by one and the same tick in both.

Instruments are taken in order of their names, and those that are not tracked stand between the others;
so what is to be shown is that they can be left out of a sorted list.
-/

set_option autoImplicit false

namespace FxPulse

/-- Whether an instrument quotes one of the currencies in another. -/
def isTracked (currencies : List String) (instrument : String) : Bool :=
  (Pair.ofInstrument? instrument).any (·.within currencies)

theorem isTracked_iff {currencies : List String} {instrument : String} :
    isTracked currencies instrument = true ↔
      ∃ pair, Pair.ofInstrument? instrument = some pair ∧ pair.within currencies = true :=
  Option.any_eq_true _ _

theorem votes?_eq_none {currencies : List String} {instrument : String}
    (untracked : isTracked currencies instrument = false) (changes : Changes) :
    votes? currencies instrument changes = none := by
  unfold isTracked at untracked
  unfold votes?
  cases named : Pair.ofInstrument? instrument with
  | none => rfl
  | some pair =>
    rw [named, Option.any_some] at untracked
    dsimp only
    rw [untracked]
    rfl

/-- Changes of instruments that are not tracked can be left out. -/
theorem Strengths.ofChanges_filter (currencies : List String) (changes : List (String × Changes)) :
    ofChanges currencies (changes.filter fun c => isTracked currencies c.1)
      = ofChanges currencies changes := by
  have voting : (changes.filter fun c => isTracked currencies c.1).filterMap
      (fun c => votes? currencies c.1 c.2) = changes.filterMap fun c => votes? currencies c.1 c.2 := by
    rw [List.filterMap_filter]
    refine List.filterMap_congr fun c _ => ?_
    cases tracked : isTracked currencies c.1 with
    | true => rfl
    | false => exact (votes?_eq_none tracked c.2).symm
  rw [ofChanges, voting]
  rfl

namespace TickStore.SameOn

variable {p : String → Bool} {s other : TickStore}

/-- The instruments among them are the same, in the same order. -/
theorem instruments (h : SameOn p s other) :
    other.instruments.filter p = s.instruments.filter p := by
  have irreflexive : Std.Irrefl fun a b : String => compare a b = .lt :=
    ⟨fun a before => by rw [Std.ReflOrd.compare_self] at before; cases before⟩
  have asymmetric : Std.Antisymm fun a b : String => compare a b = .lt :=
    ⟨fun a b before behind => by rw [Std.OrientedOrd.eq_swap, behind] at before; cases before⟩
  have sorted : ∀ store : TickStore,
      (store.instruments.filter p).Pairwise fun a b => compare a b = .lt :=
    fun store => (Std.ExtTreeMap.ordered_keys (t := store.series)).filter _
  refine (sorted other).eq_of_mem_iff (sorted s) fun i => ?_
  rw [List.mem_filter, List.mem_filter]
  refine and_congr_left fun hi => ?_
  rw [mem_instruments_iff, mem_instruments_iff, Std.ExtTreeMap.mem_iff_isSome_getElem?,
    Std.ExtTreeMap.mem_iff_isSome_getElem?, h.series i hi]

theorem changes (h : SameOn p s other) (windows : List Window) {i : String} (hi : p i = true) :
    other.changes windows i = s.changes windows i := by
  rw [TickStore.changes, TickStore.changes, h.read? hi]

/-- **Strengths depend on tracked pairs alone.** -/
theorem strengths {currencies : List String} (h : SameOn (isTracked currencies) s other)
    (windows : List Window) :
    other.strengths currencies windows other.instruments
      = s.strengths currencies windows s.instruments := by
  have tracked : ∀ store : TickStore,
      store.strengths currencies windows store.instruments
        = Strengths.ofChanges currencies
            ((store.instruments.filter (isTracked currencies)).map fun i =>
              (i, store.changes windows i)) := by
    intro store
    rw [TickStore.strengths, ← Strengths.ofChanges_filter, List.filter_map]
    rfl
  rw [tracked, tracked, h.instruments]
  congr 1
  refine List.map_congr_left fun i hi => ?_
  rw [h.changes windows (List.mem_filter.1 hi).2]

end TickStore.SameOn

end FxPulse
