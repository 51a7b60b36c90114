import FxPulse.Proofs.Archive.Bars
import Mathlib.Data.List.Sort

/-!
# `Proofs/Archive/Deliveries.lean` — what many deliveries of bars leave

Bars are delivered again and again, for any symbols, in any order, with times that have been there before;
and a delivery can fail, because a price is undefined or because the store gives out halfway. What the
store does is taken as it is documented, on a table of records in no particular order (`BarTable`): of
two records with one symbol and time the later takes the place of the earlier, what is selected is sorted,
and a transaction that does not come to its end leaves nothing. On that,

> the table and the archive always say the same (`Represents`), the bars of a symbol are in order of time,
> one for each time written and as it was written last, and a scan can find nothing wrong with them but
> prices (`deliverAll_scannable`).
-/

set_option autoImplicit false

namespace FxPulse

/-- Bars for a symbol, and after how many of them the store gives out, if it does. A store that gives out
behind the last bar does not get to commit. -/
structure Delivery where
  symbol : String
  bars : List Bar
  outage : Option Nat

/-- The store lasts, and every price is a number. -/
def Delivery.Succeeds (d : Delivery) : Prop := d.outage = none ∧ ∀ b ∈ d.bars, b.Defined

instance (d : Delivery) : Decidable d.Succeeds :=
  inferInstanceAs (Decidable (d.outage = none ∧ ∀ b ∈ d.bars, b.Defined))

theorem Delivery.not_succeeds_of_outage {d : Delivery} {count : Nat} (h : d.outage = some count) :
    ¬ d.Succeeds := by
  rintro ⟨lasts, -⟩
  rw [lasts] at h
  cases h

/-! ## The table -/

/-- A bar as it is kept, with its symbol. -/
structure BarRecord where
  symbol : String
  bar : Bar
deriving DecidableEq, Repr

/-- What no two records have in common. -/
def BarRecord.key (r : BarRecord) : String × Int := (r.symbol, r.bar.ts)

abbrev BarTable := List BarRecord

namespace BarTable

/-- Puts a record in the place of the one with its key, or behind all others. -/
def put (t : BarTable) (r : BarRecord) : BarTable :=
  if r.key ∈ t.map (·.key) then t.map fun other => if other.key = r.key then r else other
  else t ++ [r]

/-- Writes a bar, unless a price is undefined. -/
def write (t : BarTable) (symbol : String) (b : Bar) : Except Failure BarTable :=
  match Archive.storedBar? b with
  | some kept => .ok (t.put ⟨symbol, kept⟩)
  | none => .error .storage

/-- Writes several bars, one after the other, and counts them. -/
def writeAll (t : BarTable) (symbol : String) (bars : List Bar) : Except Failure (BarTable × Nat) :=
  bars.foldlM (fun (t, written) b => do return (← t.write symbol b, written + 1)) (t, 0)

/-- A transaction, as long as the store lasts. -/
def attempt (t : BarTable) (d : Delivery) : Except Failure (BarTable × Nat) :=
  match d.outage with
  | none => t.writeAll d.symbol d.bars
  | some count => do
    let _ ← t.writeAll d.symbol (d.bars.take count)
    .error .storage

/-- The table after a delivery, and what the caller is told. -/
def deliver (t : BarTable) (d : Delivery) : BarTable × Except Failure Nat :=
  match t.attempt d with
  | .ok (next, written) => (next, .ok written)
  | .error cause => (t, .error cause)

def deliverAll (t : BarTable) (ds : List Delivery) : BarTable := ds.foldl (fun t d => (t.deliver d).1) t

/-- The bars of a symbol, sorted by time. -/
def select (t : BarTable) (symbol : String) : List Bar :=
  ((t.filter fun r => r.symbol == symbol).map (·.bar)).mergeSort fun a b => decide (a.ts ≤ b.ts)

/-- The symbols there are, each of them once, sorted. -/
def symbols (t : BarTable) : List String :=
  (t.map (·.symbol)).dedup.mergeSort fun a b => decide (a ≤ b)

/-! ### Records and their keys -/

variable {t : BarTable} {r : BarRecord}

theorem keys_put (t : BarTable) (r : BarRecord) :
    (t.put r).map (·.key) = if r.key ∈ t.map (·.key) then t.map (·.key) else t.map (·.key) ++ [r.key] := by
  unfold put
  split
  · rw [List.map_map]
    refine List.map_congr_left fun other _ => ?_
    rw [Function.comp_apply]
    split
    · rename_i same
      exact same.symm
    · rfl
  · rw [List.map_append, List.map_singleton]

theorem nodup_keys_put (once : (t.map (·.key)).Nodup) (r : BarRecord) :
    ((t.put r).map (·.key)).Nodup := by
  rw [keys_put]
  split
  · exact once
  · rename_i new
    rw [← List.concat_eq_append]
    exact once.concat new

/-- A record takes the place of those with its key. -/
theorem mem_put_iff {other : BarRecord} :
    other ∈ t.put r ↔ other = r ∨ (other ∈ t ∧ other.key ≠ r.key) := by
  unfold put
  split
  · rename_i there
    rw [List.mem_map]
    constructor
    · rintro ⟨before, mem, rfl⟩
      split
      · exact .inl rfl
      · rename_i apart
        exact .inr ⟨mem, apart⟩
    · rintro (rfl | ⟨mem, apart⟩)
      · obtain ⟨before, mem, same⟩ := List.mem_map.1 there
        exact ⟨before, mem, if_pos same⟩
      · exact ⟨other, mem, if_neg apart⟩
  · rename_i new
    rw [List.mem_append, List.mem_singleton, or_comm]
    refine or_congr_right (iff_self_and.2 fun mem same => ?_)
    exact new (same ▸ List.mem_map_of_mem mem)

/-! ### What is selected -/

theorem mem_select_iff {symbol : String} {b : Bar} : b ∈ t.select symbol ↔ ⟨symbol, b⟩ ∈ t := by
  rw [select, List.mem_mergeSort, List.mem_map]
  constructor
  · rintro ⟨⟨own, b⟩, mem, rfl⟩
    obtain ⟨there, same⟩ := List.mem_filter.1 mem
    rwa [← beq_iff_eq.1 same]
  · intro there
    exact ⟨⟨symbol, b⟩, List.mem_filter.2 ⟨there, beq_iff_eq.2 rfl⟩, rfl⟩

theorem ascending_select (once : (t.map (·.key)).Nodup) (symbol : String) :
    Bar.Ascending (t.select symbol) := by
  have sorted : (t.select symbol).Pairwise fun a b => a.ts ≤ b.ts := by
    refine (List.pairwise_mergeSort ?_ ?_ _).imp fun order => of_decide_eq_true order
    · intro a b c first second
      exact decide_eq_true (Int.le_trans (of_decide_eq_true first) (of_decide_eq_true second))
    · intro a b
      rw [Bool.or_eq_true, decide_eq_true_iff, decide_eq_true_iff]
      exact Int.le_total a.ts b.ts
  have apart : ((t.filter fun r => r.symbol == symbol).map (·.bar.ts)).Nodup := by
    refine (List.Nodup.of_map BarRecord.key (once.sublist (List.filter_sublist.map _))).map_on ?_
    intro r hr other hOther times
    have symbols := (beq_iff_eq.1 (List.mem_filter.1 hr).2).trans
      (beq_iff_eq.1 (List.mem_filter.1 hOther).2).symm
    exact List.inj_on_of_nodup_map once (List.mem_filter.1 hr).1 (List.mem_filter.1 hOther).1
      (Prod.ext symbols times)
  have distinct : ((t.select symbol).map Bar.ts).Nodup := by
    rw [select, ((List.mergeSort_perm _ _).map Bar.ts).nodup_iff, List.map_map]
    exact apart
  exact (sorted.and (List.pairwise_map.1 distinct)).imp fun both => lt_of_le_of_ne both.1 both.2

theorem mem_symbols_iff {symbol : String} : symbol ∈ t.symbols ↔ ∃ b, ⟨symbol, b⟩ ∈ t := by
  rw [symbols, List.mem_mergeSort, List.mem_dedup, List.mem_map]
  constructor
  · rintro ⟨⟨symbol, b⟩, mem, rfl⟩
    exact ⟨b, mem⟩
  · rintro ⟨b, mem⟩
    exact ⟨⟨symbol, b⟩, mem, rfl⟩

theorem sorted_symbols (t : BarTable) : t.symbols.Pairwise (· < ·) := by
  have sorted : t.symbols.Pairwise (· ≤ ·) := by
    refine (List.pairwise_mergeSort ?_ ?_ _).imp fun order => of_decide_eq_true order
    · intro a b c first second
      exact decide_eq_true (le_trans (of_decide_eq_true first) (of_decide_eq_true second))
    · intro a b
      rw [Bool.or_eq_true, decide_eq_true_iff, decide_eq_true_iff]
      exact le_total a b
  have distinct : t.symbols.Nodup :=
    (List.mergeSort_perm _ _).nodup_iff.2 (List.nodup_dedup _)
  exact (sorted.and distinct).imp fun both => lt_of_le_of_ne both.1 both.2

/-! ### Transactions, said at once -/

theorem write_eq (t : BarTable) (symbol : String) (b : Bar) :
    t.write symbol b = if b.Defined then .ok (t.put ⟨symbol, b.kept⟩) else .error .storage := by
  rw [write, Archive.storedBar?_eq]
  by_cases defined : b.Defined
  · rw [if_pos defined, if_pos defined]
  · rw [if_neg defined, if_neg defined]

theorem writeAll_eq (t : BarTable) (symbol : String) (bars : List Bar) :
    t.writeAll symbol bars = if ∀ b ∈ bars, b.Defined
      then .ok ((bars.map (·.kept)).foldl (fun t b => t.put ⟨symbol, b⟩) t, bars.length)
      else .error .storage := by
  -- The count goes along from wherever it starts.
  have counted : ∀ (t : BarTable) (n : Nat),
      bars.foldlM (fun (t, written) b => do return (← t.write symbol b, written + 1)) (t, n)
        = if ∀ b ∈ bars, b.Defined
          then .ok ((bars.map (·.kept)).foldl (fun t b => t.put ⟨symbol, b⟩) t, n + bars.length)
          else (.error .storage : Except Failure (BarTable × Nat)) := by
    induction bars with
    | nil => exact fun t n => rfl
    | cons b rest ih =>
      intro t n
      simp only [List.forall_mem_cons]
      rw [List.foldlM_cons, write_eq]
      by_cases own : b.Defined
      · rw [if_pos own]
        refine (ih _ (n + 1)).trans ?_
        by_cases others : ∀ b ∈ rest, b.Defined
        · rw [if_pos others, if_pos ⟨own, others⟩, List.length_cons, Nat.add_right_comm, Nat.add_assoc]
          rfl
        · rw [if_neg others, if_neg (not_and_of_not_right _ others)]
      · rw [if_neg own, if_neg (not_and_of_not_left _ own)]
        rfl
  rw [writeAll, counted, Nat.zero_add]

/-- All of a delivery is written, or nothing. -/
theorem deliver_eq (t : BarTable) (d : Delivery) : t.deliver d = if d.Succeeds
    then ((d.bars.map (·.kept)).foldl (fun t b => t.put ⟨d.symbol, b⟩) t, .ok d.bars.length)
    else (t, .error .storage) := by
  unfold deliver attempt
  cases lasts : d.outage with
  | none =>
    by_cases defined : ∀ b ∈ d.bars, b.Defined
    · have success : d.Succeeds := ⟨lasts, defined⟩
      rw [if_pos success]
      dsimp only
      rw [writeAll_eq, if_pos defined]
    · have fails : ¬ d.Succeeds := fun success => defined success.2
      rw [if_neg fails]
      dsimp only
      rw [writeAll_eq, if_neg defined]
  | some count =>
    rw [if_neg (Delivery.not_succeeds_of_outage lasts)]
    dsimp only
    rw [writeAll_eq]
    by_cases written : ∀ b ∈ d.bars.take count, b.Defined
    · rw [if_pos written]
      rfl
    · rw [if_neg written]
      rfl

end BarTable

namespace Archive

/-- The archive after a delivery, and what the caller is told. -/
def deliver (a : Archive) (d : Delivery) : Archive × Except Failure Nat :=
  match d.outage, a.insertBars d.symbol d.bars with
  | none, .ok next => (next, .ok d.bars.length)
  | none, .error cause => (a, .error cause)
  | some _, _ => (a, .error .storage)

def deliverAll (a : Archive) (ds : List Delivery) : Archive := ds.foldl (fun a d => (a.deliver d).1) a

/-- The bars that deliveries write under a symbol, in order: all of those that the caller is told were
written. -/
def written (symbol : String) (a : Archive) : List Delivery → List Bar
  | [] => []
  | d :: rest =>
    let (next, told) := a.deliver d
    (if d.symbol = symbol ∧ told.isOk then d.bars else []) ++ next.written symbol rest

theorem deliver_eq (a : Archive) (d : Delivery) : a.deliver d = if d.Succeeds
    then ({ a with bars := (d.bars.map (·.kept)).foldl (putBar d.symbol) a.bars }, .ok d.bars.length)
    else (a, .error .storage) := by
  unfold deliver
  cases lasts : d.outage with
  | none =>
    by_cases defined : ∀ b ∈ d.bars, b.Defined
    · have success : d.Succeeds := ⟨lasts, defined⟩
      rw [insertBars_eq, if_pos defined, if_pos success]
    · have fails : ¬ d.Succeeds := fun success => defined success.2
      rw [insertBars_eq, if_neg defined, if_neg fails]
  | some count =>
    rw [if_neg (Delivery.not_succeeds_of_outage lasts)]

theorem deliver_eq_ok_iff {a : Archive} {d : Delivery} {count : Nat} :
    (a.deliver d).2 = .ok count ↔ d.Succeeds ∧ count = d.bars.length := by
  rw [deliver_eq]
  by_cases success : d.Succeeds
  · rw [if_pos success]
    simp [success, eq_comm]
  · rw [if_neg success]
    simp [success]

theorem isOk_deliver_iff {a : Archive} {d : Delivery} :
    (a.deliver d).2.isOk = true ↔ d.Succeeds := by
  rw [deliver_eq]
  by_cases success : d.Succeeds
  · rw [if_pos success]
    exact iff_of_true rfl success
  · rw [if_neg success]
    exact iff_of_false Bool.false_ne_true success

/-- **A delivery that fails leaves everything.** -/
theorem deliver_of_error {a : Archive} {d : Delivery} {cause : Failure}
    (h : (a.deliver d).2 = .error cause) : (a.deliver d).1 = a := by
  rw [deliver_eq] at h ⊢
  split at h
  · cases h
  · rename_i failure
    rw [if_neg failure]

/-- What a delivery does to the bars of a symbol, its own or another. -/
theorem barsOf_deliver (a : Archive) (d : Delivery) (symbol : String) :
    (a.deliver d).1.barsOf symbol = (if d.symbol = symbol ∧ (a.deliver d).2.isOk then d.bars else []).foldl
      (fun own (b : Bar) => own.insert b.ts b.kept) (a.barsOf symbol) := by
  simp only [isOk_deliver_iff]
  rw [deliver_eq]
  by_cases success : d.Succeeds
  · rw [if_pos success, barsOf, getD_foldl_putBar, List.foldl_map]
    by_cases own : d.symbol = symbol
    · rw [if_pos own, if_pos ⟨own, success⟩, own]
      rfl
    · rw [if_neg own, if_neg (not_and_of_not_left _ own)]
      rfl
  · rw [if_neg success, if_neg (not_and_of_not_right _ success)]
    rfl

theorem filed_deliver {a : Archive} (filed : a.Filed) (d : Delivery) : (a.deliver d).1.Filed := by
  rw [deliver_eq]
  split
  · exact filed.foldl_putBar d.symbol _
  · exact filed

/-! ## Many deliveries -/

theorem filed_deliverAll {a : Archive} (filed : a.Filed) (ds : List Delivery) :
    (a.deliverAll ds).Filed := by
  induction ds generalizing a with
  | nil => exact filed
  | cons d rest ih => exact ih (filed_deliver filed d)

/-- Under a symbol is what has been written, one bar after the other. -/
theorem barsOf_deliverAll (a : Archive) (ds : List Delivery) (symbol : String) :
    (a.deliverAll ds).barsOf symbol = (written symbol a ds).foldl
      (fun own (b : Bar) => own.insert b.ts b.kept) (a.barsOf symbol) := by
  induction ds generalizing a with
  | nil => rfl
  | cons d rest ih =>
    rw [written, List.foldl_append, ← barsOf_deliver]
    exact ih (a.deliver d).1

/-- Only bars whose prices are numbers are ever written. -/
theorem defined_of_mem_written {symbol : String} {a : Archive} {ds : List Delivery} {w : Bar}
    (h : w ∈ written symbol a ds) : w.Defined := by
  induction ds generalizing a with
  | nil => cases h
  | cons d rest ih =>
    simp only [written, isOk_deliver_iff] at h
    rcases List.mem_append.1 h with now | later
    · split at now
      · rename_i success
        exact success.2.2 w now
      · cases now
    · exact ih later

end Archive

/-! ## Table and archive -/

/-- A table and an archive say the same: the records of the table, which have different keys, are the bars
of the archive. -/
structure Represents (t : BarTable) (a : Archive) : Prop where
  once : (t.map (·.key)).Nodup
  mem_iff : ∀ symbol b, ⟨symbol, b⟩ ∈ t ↔ (a.barsOf symbol)[b.ts]? = some b

namespace Represents

variable {t : BarTable} {a : Archive}

theorem empty : Represents [] ∅ := by
  refine ⟨List.nodup_nil, fun symbol b => ?_⟩
  rw [Archive.barsOf_empty, Std.ExtTreeMap.getElem?_empty]
  simp

theorem put (h : Represents t a) (symbol : String) (b : Bar) :
    Represents (t.put ⟨symbol, b⟩) { a with bars := Archive.putBar symbol a.bars b } := by
  refine ⟨BarTable.nodup_keys_put h.once _, fun other c => ?_⟩
  rw [BarTable.mem_put_iff, Archive.barsOf_putBar, h.mem_iff]
  by_cases own : symbol = other
  · subst own
    rw [if_pos rfl, getElem?_insert_ite]
    by_cases time : b.ts = c.ts
    · simp [BarRecord.key, time, eq_comm]
    · have apart : c ≠ b := fun same => time (congrArg Bar.ts same).symm
      simp [BarRecord.key, time, apart, Ne.symm time]
  · simp [BarRecord.key, own, Ne.symm own]

theorem foldl_put (h : Represents t a) (symbol : String) (bars : List Bar) :
    Represents (bars.foldl (fun t b => t.put ⟨symbol, b⟩) t)
      { a with bars := bars.foldl (Archive.putBar symbol) a.bars } := by
  induction bars generalizing t a with
  | nil => exact h
  | cons b rest ih => exact ih (h.put symbol b)

/-- They still do after a delivery, and tell the caller the same. -/
theorem deliver (h : Represents t a) (d : Delivery) :
    Represents (t.deliver d).1 (a.deliver d).1 ∧ (t.deliver d).2 = (a.deliver d).2 := by
  rw [BarTable.deliver_eq, Archive.deliver_eq]
  split
  · exact ⟨h.foldl_put d.symbol _, rfl⟩
  · exact ⟨h, rfl⟩

theorem deliverAll (h : Represents t a) (ds : List Delivery) :
    Represents (t.deliverAll ds) (a.deliverAll ds) := by
  induction ds generalizing t a with
  | nil => exact h
  | cons d rest ih => exact ih (h.deliver d).1

theorem select_eq (h : Represents t a) (filed : a.Filed) (symbol : String) :
    t.select symbol = a.loadBars symbol := by
  have irrefl : Std.Irrefl fun a b : Bar => a.ts < b.ts := ⟨fun b => Int.lt_irrefl b.ts⟩
  have antisymm : Std.Antisymm fun a b : Bar => a.ts < b.ts :=
    ⟨fun _ _ first second => absurd first (Int.lt_asymm second)⟩
  refine (BarTable.ascending_select h.once symbol).eq_of_mem_iff (filed.ascending symbol) fun b => ?_
  rw [BarTable.mem_select_iff, h.mem_iff, Archive.mem_loadBars_iff filed]

theorem symbols_eq (h : Represents t a) (filed : a.Filed) : t.symbols = a.symbols := by
  refine (BarTable.sorted_symbols t).eq_of_mem_iff (sorted_keys a.bars) fun symbol => ?_
  rw [BarTable.mem_symbols_iff, Archive.mem_symbols_iff filed]
  constructor
  · rintro ⟨b, mem⟩
    exact List.ne_nil_of_mem ((Archive.mem_loadBars_iff filed).2 ((h.mem_iff symbol b).1 mem))
  · intro some_bars
    obtain ⟨b, mem⟩ := List.exists_mem_of_ne_nil _ some_bars
    exact ⟨b, (h.mem_iff symbol b).2 ((Archive.mem_loadBars_iff filed).1 mem)⟩

end Represents

/-! ## What is read -/

namespace Archive

/-- What is read of a symbol under which some bars have been written: one bar for each time, in order, with
the prices that were written last, as numbers. A scan refuses the first bar with a price that is not finite
or not positive, for its prices, and refuses nothing else. -/
structure Scannable (a : Archive) (symbol : String) (writes : List Bar) : Prop where
  ascending : Bar.Ascending (a.loadBars symbol)
  mem_iff : ∀ b, b ∈ a.loadBars symbol ↔ ∃ w, IsLastWrite writes w ∧ b = w.kept
  same : ∀ w ∈ writes, List.Forall₂ (fun x y => (x == y) = true) w.kept.prices w.prices
  listed : symbol ∈ a.symbols ↔ a.loadBars symbol ≠ []
  refused_iff : ∀ cause, Scan.validate symbol (a.loadBars symbol).toArray = .error cause ↔
    ∃ front bar back, a.loadBars symbol = front ++ bar :: back ∧ (∀ b ∈ front, b.Sound) ∧
      ¬ bar.Sound ∧ cause = .scanAborted symbol front.length (.badPrices bar.prices)

theorem mem_loadBars_deliverAll_iff (ds : List Delivery) (symbol : String) (b : Bar) :
    b ∈ ((∅ : Archive).deliverAll ds).loadBars symbol ↔
      ∃ w, IsLastWrite (written symbol ∅ ds) w ∧ b = w.kept := by
  rw [mem_loadBars_iff (filed_deliverAll filed_empty ds), barsOf_deliverAll, barsOf_empty,
    getElem?_foldl_insert Bar.ts Bar.kept, Std.ExtTreeMap.getElem?_empty, Option.or_none,
    Option.map_eq_some_iff]
  constructor
  · rintro ⟨w, last, rfl⟩
    exact ⟨w, (find?_ts_eq_some_iff.1 last).2, rfl⟩
  · rintro ⟨w, last, rfl⟩
    exact ⟨w, find?_ts_eq_some_iff.2 ⟨rfl, last⟩, rfl⟩

theorem scannable_deliverAll (ds : List Delivery) (symbol : String) :
    ((∅ : Archive).deliverAll ds).Scannable symbol (written symbol ∅ ds) := by
  have filed := filed_deliverAll filed_empty ds
  have ascending := filed.ascending symbol
  exact {
    ascending
    mem_iff := mem_loadBars_deliverAll_iff ds symbol
    same := fun _ mem => (defined_of_mem_written mem).kept_beq
    listed := mem_symbols_iff filed
    refused_iff := fun _ => Scan.validate_eq_error_iff ascending }

/-- **Stored bars are in order for a scan**, after any deliveries. Of each symbol is read one bar for each
time that was written, the one written last; the symbols that are listed, in order, are those with bars;
and the table says the same as the archive. A delivery succeeds if the store lasts and all prices are
numbers, and then it leaves the bars of all other symbols; one that fails leaves everything. -/
theorem deliverAll_scannable (ds : List Delivery) :
    (∀ symbol, ((∅ : Archive).deliverAll ds).Scannable symbol (written symbol ∅ ds)) ∧
    ((∅ : Archive).deliverAll ds).symbols.Pairwise (· < ·) ∧
    (∀ symbol, (BarTable.deliverAll [] ds).select symbol
      = ((∅ : Archive).deliverAll ds).loadBars symbol) ∧
    (BarTable.deliverAll [] ds).symbols = ((∅ : Archive).deliverAll ds).symbols ∧
    (∀ d, ((BarTable.deliverAll [] ds).deliver d).2 = (((∅ : Archive).deliverAll ds).deliver d).2) ∧
    ∀ (a : Archive) (d : Delivery),
      (∀ count, (a.deliver d).2 = .ok count ↔ d.Succeeds ∧ count = d.bars.length) ∧
      (∀ cause, (a.deliver d).2 = .error cause → (a.deliver d).1 = a) ∧
      ∀ symbol, symbol ≠ d.symbol → (a.deliver d).1.loadBars symbol = a.loadBars symbol := by
  have filed := filed_deliverAll filed_empty ds
  have represents := Represents.empty.deliverAll ds
  refine ⟨scannable_deliverAll ds, sorted_keys _, represents.select_eq filed,
    represents.symbols_eq filed, fun d => (represents.deliver d).2, fun a d => ⟨?_, ?_, ?_⟩⟩
  · intro count
    exact deliver_eq_ok_iff
  · intro cause failed
    exact deliver_of_error failed
  · intro symbol other
    have untouched := a.barsOf_deliver d symbol
    rw [if_neg fun both => other both.1.symm] at untouched
    exact congrArg Std.ExtTreeMap.values untouched

/-- A time that comes twice, a delivery whose second bar is not written, so that its first is not either,
and a bar that is written over. -/
def euroDeliveries : List Delivery :=
  [⟨"EURUSD", [⟨60000, 1.0, 1.0, 1.0, 1.0⟩, ⟨0, 1.5, 1.5, 1.5, 1.5⟩, ⟨60000, 2.0, 2.0, 2.0, 2.0⟩], none⟩,
    ⟨"EURUSD", [⟨120000, 9.0, 9.0, 9.0, 9.0⟩, ⟨0, 9.0, 9.0, 9.0, 9.0⟩], some 1⟩,
    ⟨"EURUSD", [⟨0, 2.5, 2.5, 2.5, 2.5⟩], none⟩]

example : ((∅ : Archive).deliverAll euroDeliveries).loadBars "EURUSD"
    = [⟨0, 2.5, 2.5, 2.5, 2.5⟩, ⟨60000, 2.0, 2.0, 2.0, 2.0⟩] := by
  decide +kernel

end Archive

end FxPulse
