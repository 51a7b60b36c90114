import Mathlib.Data.List.DropRight
import Mathlib.Data.List.Induction
import Std.Data.ExtTreeMap

/-!
# `Proofs/Lists.lean` — parts of lists

What is kept in order of time is cut and thinned out in many places, and each of them takes its part of
a list in its own way: by counting, by a test, by a look-up that may find nothing. Here is what these
ways have in common, and what a list leaves in a map that it is entered into; nothing here is about
prices.
-/

set_option autoImplicit false

namespace FxPulse

theorem toList_extract_size {α : Type} (a : Array α) (k : Nat) :
    (a.extract k a.size).toList = a.toList.drop k := by
  rw [Array.toList_extract, List.extract_eq_take_drop]
  exact List.take_of_length_le (by simp)

theorem back?_eq_some_back {α : Type} {a : Array α} (some_element : 0 < a.size) :
    a.back? = some (a.back some_element) := by
  rw [Array.back?_eq_getElem?]
  exact Array.getElem?_eq_getElem _

/-- A fold of maxima is the greatest of the numbers and of the one it starts from. -/
theorem foldl_max_greatest (l : List Int) (a : Int) :
    l.foldl max a ∈ a :: l ∧ ∀ b ∈ a :: l, b ≤ l.foldl max a :=
  List.max?_eq_some_iff.1 List.max?_cons'

/-- A part of some numbers that has no smaller one for any of them has the greatest. -/
theorem max?_eq_of_forall_le {whole part : List Int} (within : part ⊆ whole)
    (led : ∀ a ∈ whole, ∃ b ∈ part, a ≤ b) : whole.max? = part.max? := by
  cases greatest : part.max? with
  | none =>
    rw [List.max?_eq_none_iff] at greatest ⊢
    rw [greatest] at led
    rw [List.eq_nil_iff_forall_not_mem]
    rintro a mem
    obtain ⟨b, nowhere, -⟩ := led a mem
    cases nowhere
  | some top =>
    obtain ⟨mem, upTo⟩ := List.max?_eq_some_iff.1 greatest
    refine List.max?_eq_some_iff.2 ⟨within mem, fun a ha => ?_⟩
    obtain ⟨b, hb, order⟩ := led a ha
    exact Int.le_trans order (upTo b hb)

/-! ## The end of a list -/

theorem rtake_of_length_le {α : Type} {l : List α} {n : Nat} (h : l.length ≤ n) : l.rtake n = l := by
  rw [List.rtake, Nat.sub_eq_zero_of_le h, List.drop_zero]

theorem length_rtake_le {α : Type} (l : List α) (n : Nat) : (l.rtake n).length ≤ n := by
  rw [List.rtake, List.length_drop]
  omega

theorem rtake_append_of_le_length {α : Type} (front : List α) {back : List α} {n : Nat}
    (h : n ≤ back.length) : (front ++ back).rtake n = back.rtake n := by
  have all : (front ++ back).length - n = front.length + (back.length - n) := by
    rw [List.length_append]
    omega
  rw [List.rtake, all, List.drop_length_add_append, List.rtake]

theorem rdrop_append_rtake {α : Type} (l : List α) (n : Nat) : l.rdrop n ++ l.rtake n = l :=
  List.take_append_drop _ _

/-- Some of the end of a list is as long as was asked, unless it is the whole list. -/
theorem length_rtake_of_rdrop_ne_nil {α : Type} {l : List α} {n : Nat} (h : l.rdrop n ≠ []) :
    (l.rtake n).length = n := by
  rw [List.rdrop, ne_eq, List.take_eq_nil_iff, not_or] at h
  rw [List.rtake, List.length_drop]
  omega

theorem getLast?_rtake {α : Type} {l : List α} {n : Nat} (pos : 0 < n) :
    (l.rtake n).getLast? = l.getLast? := by
  rw [List.rtake, List.getLast?_drop]
  split
  · have empty : l = [] := List.length_eq_zero_iff.1 (by omega)
    rw [empty, List.getLast?_nil]
  · rfl

/-! ## A list cut where the answer of a test changes -/

section Cut

variable {α : Type} {p : α → Bool} {l : List α} {k : Nat}

theorem take_eq_filter (cut : ∀ i (hi : i < l.length), i < k ↔ p l[i] = true) :
    l.take k = l.filter p := by
  have front : (l.take k).filter p = l.take k := by
    rw [List.filter_eq_self]
    intro a ha
    obtain ⟨i, hi, rfl⟩ := List.mem_take_iff_getElem.1 ha
    exact (cut i (by omega)).1 (by omega)
  have back : (l.drop k).filter p = [] := by
    rw [List.filter_eq_nil_iff]
    intro a ha holds
    obtain ⟨i, hi, rfl⟩ := List.mem_drop_iff_getElem.1 ha
    have before := (cut (k + i) (by omega)).2 holds
    omega
  calc l.take k = (l.take k).filter p ++ (l.drop k).filter p := by
        rw [front, back, List.append_nil]
    _ = l.filter p := by rw [← List.filter_append, List.take_append_drop]

theorem drop_eq_filter (cut : ∀ i (hi : i < l.length), k ≤ i ↔ p l[i] = true) :
    l.drop k = l.filter p := by
  have front : (l.take k).filter p = [] := by
    rw [List.filter_eq_nil_iff]
    intro a ha holds
    obtain ⟨i, hi, rfl⟩ := List.mem_take_iff_getElem.1 ha
    have behind := (cut i (by omega)).2 holds
    omega
  have back : (l.drop k).filter p = l.drop k := by
    rw [List.filter_eq_self]
    intro a ha
    obtain ⟨i, hi, rfl⟩ := List.mem_drop_iff_getElem.1 ha
    exact (cut (k + i) (by omega)).1 (by omega)
  calc l.drop k = (l.take k).filter p ++ (l.drop k).filter p := by
        rw [front, back, List.nil_append]
    _ = l.filter p := by rw [← List.filter_append, List.take_append_drop]

end Cut

/-- What holds somewhere in a list holds for a first time. -/
theorem exists_first_of_mem {α : Type} {p : α → Prop} {l : List α} (h : ∃ a ∈ l, p a) :
    ∃ front a back, l = front ++ a :: back ∧ p a ∧ ∀ other ∈ front, ¬ p other := by
  induction l with
  | nil =>
    obtain ⟨a, ha, -⟩ := h
    cases ha
  | cons a rest ih =>
    by_cases here : p a
    · exact ⟨[], a, rest, rfl, here, by simp⟩
    · obtain ⟨b, hb, holds⟩ := h
      have later : b ∈ rest := (List.mem_cons.1 hb).resolve_left fun same => here (same ▸ holds)
      obtain ⟨front, first, back, rfl, first_holds, before⟩ := ih ⟨b, later, holds⟩
      exact ⟨a :: front, first, back, rfl, first_holds, List.forall_mem_cons.2 ⟨here, before⟩⟩

/-- What is found from the end has nothing behind it that passes. -/
theorem find?_reverse_eq_some_iff {α : Type} {p : α → Bool} {l : List α} {a : α} :
    l.reverse.find? p = some a ↔
      p a = true ∧ ∃ front back, l = front ++ a :: back ∧ ∀ b ∈ back, p b = false := by
  rw [List.find?_eq_some_iff_append]
  refine and_congr_right fun _ => ?_
  constructor
  · rintro ⟨after, before, split, passed⟩
    refine ⟨before.reverse, after.reverse, ?_, fun b mem => ?_⟩
    · rw [← List.reverse_reverse l, split]
      simp
    · simpa using passed b (List.mem_reverse.1 mem)
  · rintro ⟨front, back, rfl, failed⟩
    refine ⟨back.reverse, front.reverse, by simp, fun b mem => ?_⟩
    simpa using failed b (List.mem_reverse.1 mem)

/-! ## Two ways to keep some of a list -/

section Parts

variable {α β : Type} {f g : α → Option β} {l : List α}

theorem filterMap_sublist_filterMap (part : ∀ a ∈ l, g a = none ∨ g a = f a) :
    List.Sublist (l.filterMap g) (l.filterMap f) := by
  induction l with
  | nil => exact List.Sublist.slnil
  | cons a rest ih =>
    obtain ⟨first, later⟩ := List.forall_mem_cons.1 part
    rw [List.filterMap_cons, List.filterMap_cons]
    rcases first with nothing | same
    · rw [nothing]
      cases f a with
      | none => exact ih later
      | some b => exact (ih later).cons b
    · rw [same]
      cases f a with
      | none => exact ih later
      | some b => exact (ih later).cons_cons b

/-- Where one keeps part of what the other does, they agree as lists only if they do at each place. -/
theorem filterMap_eq_iff (part : ∀ a ∈ l, g a = none ∨ g a = f a) :
    l.filterMap g = l.filterMap f ↔ ∀ a ∈ l, g a = f a := by
  constructor
  · intro same
    induction l with
    | nil => simp
    | cons a rest ih =>
      obtain ⟨first, later⟩ := List.forall_mem_cons.1 part
      have shorter := (filterMap_sublist_filterMap later).length_le
      rw [List.filterMap_cons, List.filterMap_cons] at same
      cases hf : f a with
      | none =>
        have hg : g a = none := by simpa [hf] using first
        rw [hf, hg] at same
        exact List.forall_mem_cons.2 ⟨hg.trans hf.symm, ih later same⟩
      | some b =>
        rcases first with nothing | agrees
        · -- One point less here cannot be made good later.
          rw [nothing, hf] at same
          have lengths := congrArg List.length same
          simp only [List.length_cons] at lengths
          omega
        · rw [agrees, hf] at same
          exact List.forall_mem_cons.2 ⟨agrees, ih later (List.cons.inj same).2⟩
  · exact List.filterMap_congr

end Parts

/-! ## A list entered into a map -/

section Entered

variable {α κ β : Type} [DecidableEq κ] {cmp : κ → κ → Ordering} [Std.TransCmp cmp]
  [Std.LawfulEqCmp cmp] (key : α → κ) (value : α → β)

theorem getElem?_insert_ite (m : Std.ExtTreeMap κ β cmp) (k other : κ) (b : β) :
    (m.insert k b)[other]? = if k = other then some b else m[other]? := by
  rw [Std.ExtTreeMap.getElem?_insert]
  exact if_congr Std.LawfulEqCmp.compare_eq_iff_eq rfl rfl

theorem getD_insert_ite (m : Std.ExtTreeMap κ β cmp) (k other : κ) (b fallback : β) :
    (m.insert k b).getD other fallback = if k = other then b else m.getD other fallback := by
  rw [Std.ExtTreeMap.getD_insert]
  exact if_congr Std.LawfulEqCmp.compare_eq_iff_eq rfl rfl

/-- A key has the value of the last element entered under it, or what it had before. -/
theorem getElem?_foldl_insert (l : List α) (m : Std.ExtTreeMap κ β cmp) (k : κ) :
    (l.foldl (fun m a => m.insert (key a) (value a)) m)[k]?
      = ((l.reverse.find? fun a => key a = k).map value).or m[k]? := by
  induction l using List.reverseRecOn with
  | nil => rfl
  | append_singleton front a ih =>
    rw [List.foldl_append, List.reverse_append, List.reverse_singleton, List.singleton_append,
      List.find?_cons, List.foldl_cons, List.foldl_nil, getElem?_insert_ite]
    by_cases own : key a = k
    · rw [if_pos own, decide_eq_true own]
      rfl
    · rw [if_neg own, decide_eq_false own]
      exact ih

/-- Entering the same list again changes nothing. -/
theorem foldl_insert_foldl_insert (l : List α) (m : Std.ExtTreeMap κ β cmp) :
    l.foldl (fun m a => m.insert (key a) (value a)) (l.foldl (fun m a => m.insert (key a) (value a)) m)
      = l.foldl (fun m a => m.insert (key a) (value a)) m := by
  ext k b
  rw [getElem?_foldl_insert, getElem?_foldl_insert, ← Option.or_assoc, Option.or_self]

end Entered

/-- The values of a map stand in the order of its keys. -/
theorem values_eq_map_snd {κ β : Type} {cmp : κ → κ → Ordering} [Std.TransCmp cmp]
    (m : Std.ExtTreeMap κ β cmp) : m.values = m.toList.map Prod.snd := by
  obtain ⟨inner⟩ := m
  induction inner using Std.ExtDTreeMap.inductionOn with
  | _ tree =>
    show tree.inner.values = (Std.DTreeMap.Internal.Impl.Const.toList tree.inner).map Prod.snd
    rw [Std.DTreeMap.Internal.Impl.values_eq_map_snd,
      Std.DTreeMap.Internal.Impl.Const.toList_eq_toListModel_map, List.map_map]
    rfl

/-- The keys of a map of texts stand in the order of texts. -/
theorem sorted_keys {β : Type} (m : Std.ExtTreeMap String β) : m.keys.Pairwise (· < ·) := by
  refine Std.ExtTreeMap.ordered_keys.imp ?_
  intro first second order
  exact compareOfLessAndEq_eq_lt.1 order

end FxPulse
