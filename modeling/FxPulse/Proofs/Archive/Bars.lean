import FxPulse.Proofs.Archive.Rows
import FxPulse.Proofs.Lists
import FxPulse.Proofs.Scan.Bars

/-!
# `Proofs/Archive/Bars.lean` — bars that are written and read

Bars go into an archive under a symbol, several at once, and all of them or none: they are kept exactly if
no price is undefined (`insertBars_eq`). A time has one bar at most, and a bar takes the place of an
earlier one with its time, so that of many bars written each time has the last one (`IsLastWrite`).

> Bars are read in order of time (`Filed.ascending`), and the symbols with bars are those that are listed
> (`mem_symbols_iff`).
-/

set_option autoImplicit false

namespace FxPulse

open FxPulse.Number

namespace Bar

/-- Every price is a number. -/
def Defined (b : Bar) : Prop := ∀ p ∈ b.prices, p.isNaN = false

instance (b : Bar) : Decidable b.Defined := inferInstanceAs (Decidable (∀ p ∈ b.prices, p.isNaN = false))

/-- The bar as it is once it is in the archive. -/
def kept (b : Bar) : Bar where
  ts := b.ts
  openPrice := Archive.unsigned b.openPrice
  high := Archive.unsigned b.high
  low := Archive.unsigned b.low
  close := Archive.unsigned b.close

/-- Its prices are the same numbers. -/
theorem Defined.kept_beq {b : Bar} (defined : b.Defined) :
    List.Forall₂ (fun x y => (x == y) = true) b.kept.prices b.prices := by
  have same : b.kept.prices = b.prices.map Archive.unsigned := rfl
  rw [same, List.forall₂_map_left_iff, List.forall₂_same]
  exact fun p mem => Archive.unsigned_beq (defined p mem)

end Bar

/-- Of several bars that were written, one that was not written over. -/
def IsLastWrite (writes : List Bar) (w : Bar) : Prop :=
  ∃ front back, writes = front ++ w :: back ∧ ∀ later ∈ back, later.ts ≠ w.ts

theorem find?_ts_eq_some_iff {writes : List Bar} {ts : Int} {w : Bar} :
    (writes.reverse.find? fun b => b.ts = ts) = some w ↔ w.ts = ts ∧ IsLastWrite writes w := by
  rw [find?_reverse_eq_some_iff, decide_eq_true_iff]
  refine and_congr_right fun own => ?_
  simp only [IsLastWrite, own, decide_eq_false_iff_not, ne_eq]

namespace Archive

/-! ## Writing -/

theorem number_of_stored? {x y : Float} (h : stored? x = some y) : x.isNaN = false := by
  rw [stored?_eq] at h
  split at h
  · cases h
  · rename_i number
    exact Bool.eq_false_of_not_eq_true number

theorem storedBar?_eq (b : Bar) : storedBar? b = if b.Defined then some b.kept else none := by
  have defined_iff : b.Defined ↔ b.openPrice.isNaN = false ∧ b.high.isNaN = false ∧
      b.low.isNaN = false ∧ b.close.isNaN = false := by
    simp only [Bar.Defined, Bar.prices, List.forall_mem_cons, List.not_mem_nil,
      false_implies, implies_true, and_true]
  by_cases defined : b.Defined
  · obtain ⟨first, high, low, close⟩ := defined_iff.1 defined
    rw [if_pos defined, storedBar?]
    simp only [stored?_eq, first, high, low, close]
    rfl
  · rw [if_neg defined]
    cases stored : storedBar? b with
    | none => rfl
    | some kept =>
      refine absurd ?_ defined
      simp only [storedBar?, Option.bind_eq_bind, Option.bind_eq_some_iff] at stored
      obtain ⟨_, first, _, high, _, low, _, close, -⟩ := stored
      exact defined_iff.2 ⟨number_of_stored? first, number_of_stored? high, number_of_stored? low,
        number_of_stored? close⟩

theorem mapM_storedBar? (bars : List Bar) :
    bars.mapM storedBar? = if ∀ b ∈ bars, b.Defined then some (bars.map (·.kept)) else none := by
  induction bars with
  | nil => rfl
  | cons b rest ih =>
    rw [List.mapM_cons, ih, storedBar?_eq]
    simp only [List.forall_mem_cons]
    by_cases own : b.Defined
    · by_cases others : ∀ b ∈ rest, b.Defined
      · rw [if_pos own, if_pos others, if_pos ⟨own, others⟩]
        rfl
      · rw [if_pos own, if_neg others, if_neg (not_and_of_not_right _ others)]
        rfl
    · rw [if_neg own, if_neg (not_and_of_not_left _ own)]
      rfl

/-- **Writing bars, said at once.** -/
theorem insertBars_eq (a : Archive) (symbol : String) (bars : List Bar) :
    a.insertBars symbol bars = if ∀ b ∈ bars, b.Defined
      then .ok { a with bars := (bars.map (·.kept)).foldl (putBar symbol) a.bars }
      else .error .storage := by
  rw [insertBars, mapM_storedBar?]
  by_cases defined : ∀ b ∈ bars, b.Defined
  · rw [if_pos defined, if_pos defined]
  · rw [if_neg defined, if_neg defined]

/-- The bars under a symbol, by time. -/
def barsOf (a : Archive) (symbol : String) : Std.ExtTreeMap Int Bar := a.bars.getD symbol ∅

theorem barsOf_putBar (a : Archive) (symbol other : String) (b : Bar) :
    barsOf { a with bars := putBar symbol a.bars b } other
      = if symbol = other then (a.barsOf symbol).insert b.ts b else a.barsOf other :=
  getD_insert_ite a.bars symbol other _ ∅

/-- Bars of one symbol, one after the other, leave those of all others. -/
theorem getD_foldl_putBar (symbol other : String) (bars : List Bar)
    (m : Std.ExtTreeMap String (Std.ExtTreeMap Int Bar)) :
    (bars.foldl (putBar symbol) m).getD other ∅ = if symbol = other
      then bars.foldl (fun own (b : Bar) => own.insert b.ts b) (m.getD symbol ∅) else m.getD other ∅ := by
  induction bars generalizing m with
  | nil =>
    split
    · rename_i same
      rw [same]
      rfl
    · rfl
  | cons b rest ih =>
    rw [List.foldl_cons, ih, putBar, getD_insert_ite, getD_insert_ite, if_pos rfl]
    split <;> rfl

/-! ## What is under a symbol -/

/-- Bars stand under their times, and a symbol that is there has some. -/
structure Filed (a : Archive) : Prop where
  times : ∀ symbol ts (b : Bar), (a.barsOf symbol)[ts]? = some b → b.ts = ts
  some_bar : ∀ symbol ∈ a.bars, ∃ b : Bar, (a.barsOf symbol)[b.ts]? = some b

theorem barsOf_empty (symbol : String) : (∅ : Archive).barsOf symbol = ∅ := Std.ExtTreeMap.getD_empty

theorem filed_empty : (∅ : Archive).Filed := by
  constructor
  · intro symbol ts b there
    rw [barsOf_empty, Std.ExtTreeMap.getElem?_empty] at there
    cases there
  · intro symbol there
    exact absurd there Std.ExtTreeMap.not_mem_empty

theorem Filed.putBar {a : Archive} (filed : a.Filed) (symbol : String) (b : Bar) :
    Filed { a with bars := Archive.putBar symbol a.bars b } := by
  constructor
  · intro other ts c there
    rw [barsOf_putBar] at there
    split at there
    · rw [getElem?_insert_ite] at there
      split at there
      · rename_i same
        rw [← Option.some.inj there, same]
      · exact filed.times symbol ts c there
    · exact filed.times other ts c there
  · intro other there
    rw [barsOf_putBar]
    by_cases own : symbol = other
    · rw [if_pos own]
      exact ⟨b, Std.ExtTreeMap.getElem?_insert_self⟩
    · rw [if_neg own]
      refine filed.some_bar other ((Std.ExtTreeMap.mem_insert.1 there).resolve_left fun same => ?_)
      exact own (Std.LawfulEqCmp.compare_eq_iff_eq.1 same)

theorem Filed.foldl_putBar {a : Archive} (filed : a.Filed) (symbol : String) (bars : List Bar) :
    Filed { a with bars := bars.foldl (Archive.putBar symbol) a.bars } := by
  induction bars generalizing a with
  | nil => exact filed
  | cons b rest ih => exact ih (filed.putBar symbol b)

/-! ## Reading -/

theorem mem_loadBars_iff {a : Archive} (filed : a.Filed) {symbol : String} {b : Bar} :
    b ∈ a.loadBars symbol ↔ (a.barsOf symbol)[b.ts]? = some b := by
  have values : a.loadBars symbol = (a.barsOf symbol).toList.map Prod.snd := values_eq_map_snd _
  rw [values, List.mem_map]
  constructor
  · rintro ⟨⟨ts, b⟩, mem, rfl⟩
    have there := Std.ExtTreeMap.mem_toList_iff_getElem?_eq_some.1 mem
    rwa [filed.times symbol ts b there]
  · intro there
    exact ⟨(b.ts, b), Std.ExtTreeMap.mem_toList_iff_getElem?_eq_some.2 there, rfl⟩

/-- **Bars are read in order of time**, no two of them with one time. -/
theorem Filed.ascending {a : Archive} (filed : a.Filed) (symbol : String) :
    Bar.Ascending (a.loadBars symbol) := by
  have values : a.loadBars symbol = (a.barsOf symbol).toList.map Prod.snd := values_eq_map_snd _
  rw [values, Bar.Ascending, List.pairwise_map]
  refine Std.ExtTreeMap.ordered_keys_toList.imp_of_mem ?_
  rintro ⟨ts, b⟩ ⟨later, c⟩ hb hc order
  have first := filed.times symbol ts b (Std.ExtTreeMap.mem_toList_iff_getElem?_eq_some.1 hb)
  have second := filed.times symbol later c (Std.ExtTreeMap.mem_toList_iff_getElem?_eq_some.1 hc)
  dsimp only at order ⊢
  rw [first, second]
  exact Int.compare_eq_lt.1 order

theorem mem_symbols_iff {a : Archive} (filed : a.Filed) {symbol : String} :
    symbol ∈ a.symbols ↔ a.loadBars symbol ≠ [] := by
  rw [symbols, Std.ExtTreeMap.mem_keys]
  constructor
  · intro there
    obtain ⟨b, found⟩ := filed.some_bar symbol there
    exact List.ne_nil_of_mem ((mem_loadBars_iff filed).2 found)
  · intro some_bars
    by_contra missing
    apply some_bars
    rw [loadBars, Std.ExtTreeMap.getD_eq_fallback missing]
    rfl

end Archive

end FxPulse
