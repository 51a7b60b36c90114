import FxPulse.Archive.Basic
import FxPulse.Proofs.Number.Order
import FxPulse.Proofs.Config.Retention
import FxPulse.Proofs.Scan.Rows

/-!
# `Proofs/Archive/Rows.lean` — rows that are written and read

Rows go into an archive one after the other, and any of them can be refused. Said at once: rows can be
kept under a symbol exactly if no probability is undefined and no two rows have the same texts
(`Keepable`), and then

> they come behind the rows of all other symbols (`replaceRows_eq`), and each that has a well-formed key and
> counts in range is read back as it was (`toRow_kept`).

Whether rows can be kept has nothing to do with what is in the archive already: rows of other symbols
cannot be in the way.
-/

set_option autoImplicit false

namespace FxPulse

open FxPulse.Number

namespace Archive

/-- A float as it comes back: zero has lost its sign. -/
def unsigned (x : Float) : Float := if x == 0.0 then 0.0 else x

theorem stored?_eq (x : Float) : stored? x = if x.isNaN then none else some (unsigned x) := by
  unfold stored? unsigned
  by_cases undefined : x.isNaN = true
  · rw [if_pos undefined, if_pos undefined]
  · rw [if_neg undefined, if_neg undefined]
    split <;> rfl

/-- What comes back is the same number. -/
theorem unsigned_beq {x : Float} (number : x.isNaN = false) : (unsigned x == x) = true := by
  unfold unsigned
  split
  · rename_i zero
    rw [beq_swap]
    exact zero
  · exact beq_self_of_number number

end Archive

/-- What of a key is written down. -/
def RowKey.texts (k : RowKey) : List String := [k.trigger, k.outcome, k.direction.text, k.state.text]

/-- Well-formed keys are told apart by their texts. -/
theorem RowKey.eq_of_texts {k other : RowKey} (named : k.state.WellFormed)
    (namedToo : other.state.WellFormed) (same : k.texts = other.texts) : k = other := by
  obtain ⟨trigger, outcome, direction, state⟩ := k
  obtain ⟨trigger', outcome', direction', state'⟩ := other
  simp only [RowKey.texts, List.cons.injEq, and_true] at same
  obtain ⟨rfl, rfl, directions, states⟩ := same
  obtain rfl := Direction.text_injective directions
  obtain rfl := named.eq_of_text namedToo states
  rfl

namespace StoredRow

/-- The row as it is once it is in the archive. -/
def kept (r : StoredRow) : StoredRow := { r with probability := Archive.unsigned r.probability }

theorem identity_ofRow (symbol : String) (r : Row) :
    (ofRow symbol r).identity = symbol :: r.key.texts := rfl

/-- A row that is understood is one of its symbol. -/
theorem symbol_of_toRow {r : StoredRow} {row : Row} (h : r.toRow = .ok row) : row.symbol = r.symbol := by
  unfold toRow at h
  obtain ⟨direction, -, h⟩ := bind_eq_ok_iff.1 h
  obtain ⟨state, -, h⟩ := bind_eq_ok_iff.1 h
  split at h
  · cases h
  · cases h
    rfl

end StoredRow

/-- The row as it is read back from under a symbol. -/
def Row.readBack (symbol : String) (r : Row) : Row :=
  ⟨symbol, r.key, r.counts, .float (Archive.unsigned r.probability.toFloat)⟩

/-- No more successes than cases, and no more cases than a signed word counts. -/
def Counts.Fit (c : Counts) : Prop := c.successes ≤ c.total ∧ c.total < signedLimit

instance (c : Counts) : Decidable c.Fit :=
  inferInstanceAs (Decidable (c.successes ≤ c.total ∧ c.total < signedLimit))

/-- **A row is read back as it was written.** -/
theorem StoredRow.toRow_kept {symbol : String} {r : Row} (named : r.key.state.WellFormed)
    (fit : r.counts.Fit) : (ofRow symbol r).kept.toRow = .ok (r.readBack symbol) := by
  obtain ⟨ordered, small⟩ := fit
  have sense : ¬ ((r.counts.successes : Int) < 0 ∨ (r.counts.total : Int) < r.counts.successes) :=
    not_or.2 ⟨Int.not_lt.2 (Int.natCast_nonneg _), Int.not_lt.2 (Int.ofNat_le.2 ordered)⟩
  have direction : Direction.ofText (ofRow symbol r).kept.direction = .ok r.key.direction :=
    Direction.ofText_text _
  have state : StateKey.ofText (ofRow symbol r).kept.state = .ok r.key.state := named.ofText_text
  have successes : (ofRow symbol r).kept.successes = r.counts.successes := by
    simp only [kept, ofRow]
    exact Config.wrapSigned_of_lt (Nat.lt_of_le_of_lt ordered small)
  have total : (ofRow symbol r).kept.total = r.counts.total := by
    simp only [kept, ofRow]
    exact Config.wrapSigned_of_lt small
  rw [toRow, direction, state, successes, total]
  dsimp only [understand, bind, Except.bind]
  rw [if_neg sense]
  rfl

namespace Archive

/-! ## Writing rows -/

/-- Rows that can be added to others: with a probability each, and none with the identity of another. -/
structure Addable (rows added : List StoredRow) : Prop where
  defined : ∀ r ∈ added, r.probability.isNaN = false
  once : (added.map (·.identity)).Nodup
  new : ∀ r ∈ added, ∀ other ∈ rows, other.identity ≠ r.identity

theorem insertRow_of_addable {rows : List StoredRow} {r : StoredRow}
    (defined : r.probability.isNaN = false) (new : ∀ other ∈ rows, other.identity ≠ r.identity) :
    insertRow rows r = .ok (rows ++ [r.kept]) := by
  have absent : (rows.any fun other => other.identity == r.identity) = false := by
    rw [List.any_eq_false]
    exact fun other mem => by simpa using new other mem
  have stored : stored? r.probability = some (unsigned r.probability) := by
    rw [stored?_eq, defined]
    rfl
  rw [insertRow, stored]
  dsimp only
  rw [absent]
  rfl

theorem insertRow_eq_error {rows : List StoredRow} {r : StoredRow}
    (refused : r.probability.isNaN = true ∨ ∃ other ∈ rows, other.identity = r.identity) :
    insertRow rows r = .error .storage := by
  unfold insertRow
  cases stored : stored? r.probability with
  | none => rfl
  | some probability =>
    rw [stored?_eq] at stored
    split at stored
    · cases stored
    · rename_i number
      obtain ⟨other, mem, same⟩ := refused.resolve_left number
      have there : (rows.any fun other => other.identity == r.identity) = true :=
        List.any_eq_true.2 ⟨other, mem, by simpa using same⟩
      dsimp only
      rw [if_pos there]

theorem addable_cons_iff {rows : List StoredRow} {r : StoredRow} {rest : List StoredRow} :
    Addable rows (r :: rest) ↔
      (r.probability.isNaN = false ∧ ∀ other ∈ rows, other.identity ≠ r.identity) ∧
        Addable (rows ++ [r.kept]) rest := by
  constructor
  · rintro ⟨defined, once, new⟩
    obtain ⟨own, defined⟩ := List.forall_mem_cons.1 defined
    obtain ⟨first, new⟩ := List.forall_mem_cons.1 new
    obtain ⟨apart, once⟩ := List.nodup_cons.1 once
    refine ⟨⟨own, first⟩, defined, once, fun later mem other there => ?_⟩
    rcases List.mem_append.1 there with before | this
    · exact new later mem other before
    · rw [List.mem_singleton.1 this]
      exact fun same => apart (List.mem_map.2 ⟨later, mem, same.symm⟩)
  · rintro ⟨⟨own, first⟩, defined, once, new⟩
    refine ⟨List.forall_mem_cons.2 ⟨own, defined⟩, List.nodup_cons.2 ⟨fun mem => ?_, once⟩,
      List.forall_mem_cons.2 ⟨first, fun later mem other there =>
        new later mem other (List.mem_append_left _ there)⟩⟩
    obtain ⟨later, mem, same⟩ := List.mem_map.1 mem
    exact new later mem r.kept (List.mem_append_right _ (List.mem_singleton_self _)) same.symm

/-- **Rows are added all of them**, if they can be. -/
theorem foldlM_insertRow {rows added : List StoredRow} (addable : Addable rows added) :
    added.foldlM insertRow rows = .ok (rows ++ added.map (·.kept)) := by
  induction added generalizing rows with
  | nil =>
    rw [List.map_nil, List.append_nil]
    rfl
  | cons r rest ih =>
    obtain ⟨⟨defined, new⟩, later⟩ := addable_cons_iff.1 addable
    rw [List.foldlM_cons, insertRow_of_addable defined new]
    refine (ih later).trans ?_
    rw [List.append_assoc, List.singleton_append, List.map_cons]

/-- If they cannot be, one of them is refused. -/
theorem foldlM_insertRow_of_not {rows added : List StoredRow} (refused : ¬ Addable rows added) :
    added.foldlM insertRow rows = .error .storage := by
  induction added generalizing rows with
  | nil => exact absurd ⟨nofun, List.nodup_nil, nofun⟩ refused
  | cons r rest ih =>
    rw [List.foldlM_cons]
    by_cases first : r.probability.isNaN = false ∧ ∀ other ∈ rows, other.identity ≠ r.identity
    · rw [insertRow_of_addable first.1 first.2]
      exact ih fun later => refused (addable_cons_iff.2 ⟨first, later⟩)
    · have cause : r.probability.isNaN = true ∨ ∃ other ∈ rows, other.identity = r.identity := by
        by_cases defined : r.probability.isNaN = true
        · exact .inl defined
        · refine .inr ?_
          by_contra none
          exact first ⟨by simpa using defined, fun other mem same => none ⟨other, mem, same⟩⟩
      rw [insertRow_eq_error cause]
      rfl

/-! ## Replacing the rows of a symbol -/

/-- Rows that can be kept under a symbol. -/
structure Keepable (rows : List Row) : Prop where
  defined : ∀ r ∈ rows, r.probability.toFloat.isNaN = false
  once : (rows.map (·.key.texts)).Nodup

instance (rows : List Row) : Decidable (Keepable rows) :=
  decidable_of_iff ((∀ r ∈ rows, r.probability.toFloat.isNaN = false) ∧
      (rows.map (·.key.texts)).Nodup)
    ⟨fun h => ⟨h.1, h.2⟩, fun h => ⟨h.defined, h.once⟩⟩

/-- Well-formed keys that differ can be kept, where every probability is a number. -/
theorem keepable_of_nodup_keys {rows : List Row} (once : (rows.map (·.key)).Nodup)
    (named : ∀ r ∈ rows, r.key.state.WellFormed)
    (defined : ∀ r ∈ rows, r.probability.toFloat.isNaN = false) : Keepable rows := by
  refine ⟨defined, ?_⟩
  have apart := List.nodup_map_iff_inj_on (f := RowKey.texts) once
  rw [List.map_map] at apart
  refine apart.2 ?_
  intro k hk other hOther same
  obtain ⟨r, mem, rfl⟩ := List.mem_map.1 hk
  obtain ⟨r', mem', rfl⟩ := List.mem_map.1 hOther
  exact RowKey.eq_of_texts (named r mem) (named r' mem') same

/-- The rows under other symbols. -/
def rowsBeside (a : Archive) (symbol : String) : List StoredRow :=
  a.rows.filter fun r => r.symbol != symbol

/-- The rows of other symbols are in nobody's way. -/
theorem addable_ofRow_iff (a : Archive) (symbol : String) {rows : List Row} :
    Addable (a.rowsBeside symbol) (rows.map (StoredRow.ofRow symbol)) ↔ Keepable rows := by
  have identities : (rows.map (StoredRow.ofRow symbol)).map (·.identity)
      = (rows.map (·.key.texts)).map (symbol :: ·) := by
    rw [List.map_map, List.map_map]
    rfl
  have front : Function.Injective fun texts : List String => symbol :: texts :=
    fun _ _ same => (List.cons.inj same).2
  constructor
  · rintro ⟨defined, once, -⟩
    rw [identities] at once
    refine ⟨fun r mem => ?_, List.Nodup.of_map _ once⟩
    exact defined (StoredRow.ofRow symbol r) (List.mem_map.2 ⟨r, mem, rfl⟩)
  · rintro ⟨defined, once⟩
    refine ⟨?_, ?_, ?_⟩
    · intro _ mem
      obtain ⟨r, inside, rfl⟩ := List.mem_map.1 mem
      exact defined r inside
    · rw [identities]
      exact once.map front
    · intro _ mem other there same
      obtain ⟨r, -, rfl⟩ := List.mem_map.1 mem
      have beside : other.symbol ≠ symbol := by simpa using (List.mem_filter.1 there).2
      rw [StoredRow.identity_ofRow] at same
      exact beside (List.cons.inj same).1

/-- The archive with the rows in the place of all rows of the symbol. -/
def withRows (a : Archive) (symbol : String) (rows : List Row) : Archive :=
  { a with rows := a.rowsBeside symbol ++ rows.map fun r => (StoredRow.ofRow symbol r).kept }

/-- **Replacing, said at once.** -/
theorem replaceRows_eq (a : Archive) (symbol : String) (rows : List Row) :
    a.replaceRows symbol rows
      = if Keepable rows then .ok (a.withRows symbol rows) else .error .storage := by
  rw [replaceRows]
  by_cases keepable : Keepable rows
  · rw [if_pos keepable]
    have written := foldlM_insertRow ((a.addable_ofRow_iff symbol).2 keepable)
    rw [rowsBeside] at written
    rw [written, List.map_map]
    rfl
  · rw [if_neg keepable]
    have refused := foldlM_insertRow_of_not
      (mt (a.addable_ofRow_iff symbol).1 keepable)
    rw [rowsBeside] at refused
    rw [refused]
    rfl

/-- The rows under a symbol, understood or not. -/
def rowsOf (a : Archive) (symbol : String) : List StoredRow := a.rows.filter fun r => r.symbol == symbol

/-- **A replacement touches the rows of its symbol only.** -/
theorem rowsOf_withRows (a : Archive) (symbol other : String) (rows : List Row) :
    (a.withRows symbol rows).rowsOf other
      = if other = symbol then rows.map fun r => (StoredRow.ofRow symbol r).kept
        else a.rowsOf other := by
  have under : ∀ r ∈ rows.map fun r => (StoredRow.ofRow symbol r).kept, r.symbol = symbol := by
    intro _ mem
    obtain ⟨r, -, rfl⟩ := List.mem_map.1 mem
    rfl
  rw [rowsOf, withRows, List.filter_append, rowsBeside, List.filter_filter]
  by_cases own : other = symbol
  · have beside : a.rows.filter (fun r => r.symbol == other && r.symbol != symbol) = [] :=
      List.filter_eq_nil_iff.2 fun r _ => by simp [own]
    rw [if_pos own, beside, List.nil_append, List.filter_eq_self]
    exact fun r mem => by simp [own, under r mem]
  · have new : (rows.map fun r => (StoredRow.ofRow symbol r).kept).filter (·.symbol == other) = [] :=
      List.filter_eq_nil_iff.2 fun r mem => by simp [under r mem, Ne.symm own]
    rw [if_neg own, new, List.append_nil, rowsOf]
    refine List.filter_congr fun r _ => ?_
    by_cases same : r.symbol = other <;> simp [same, own]

/-! ## Reading rows -/

theorem toList_loadTable (a : Archive) :
    a.loadTable.rows.toList = a.rows.filterMap (·.toRow.toOption) := by
  rw [loadTable, Table.ofRows]

/-- The rows of some symbols are loaded as the rows of those symbols. -/
theorem filterMap_filter_rows (a : Archive) (p : String → Bool) :
    (a.rows.filter fun r => p r.symbol).filterMap (·.toRow.toOption)
      = a.loadTable.rows.toList.filter fun r => p r.symbol := by
  rw [toList_loadTable, List.filter_filterMap, List.filterMap_filter]
  refine List.filterMap_congr fun r _ => ?_
  cases understood : r.toRow with
  | error cause => cases p r.symbol <;> rfl
  | ok row => cases own : p r.symbol <;>
      simp [Except.toOption, Option.filter, StoredRow.symbol_of_toRow understood, own]

/-- **The table after a replacement**: the rows of other symbols, and the new rows as they are read. -/
theorem toList_loadTable_withRows (a : Archive) (symbol : String) (rows : List Row) :
    (a.withRows symbol rows).loadTable.rows.toList
      = a.loadTable.rows.toList.filter (fun r => r.symbol != symbol)
        ++ rows.filterMap fun r => (StoredRow.ofRow symbol r).kept.toRow.toOption := by
  rw [toList_loadTable, withRows, List.filterMap_append, List.filterMap_map, rowsBeside,
    a.filterMap_filter_rows fun own => own != symbol]
  rfl

end Archive

end FxPulse
