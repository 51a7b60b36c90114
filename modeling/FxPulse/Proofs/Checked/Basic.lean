import FxPulse.Checked.Basic
import FxPulse.Proofs.Failure

/-!
# `Proofs/Checked/Basic.lean` — how a checked operation ends

Two things can be shown of an operation that could break off. Where no number in it is too large it comes
to the same as the operation that asks nothing (`Completes`, and `EndsAs` if that one may refuse). And
whatever its numbers are, no place, no bound and no divisor in it is ever wrong: it has an answer, or a
refusal, or else a number left the word in a program that was built to notice (`Ends`).

Both go through an operation bind by bind. The other files of this folder take the checked definitions
one after the other.
-/

set_option autoImplicit false

namespace FxPulse

open FxPulse.Number

namespace Checked

variable {α β : Type}

/-! ## Operations -/

theorem element_of_getElem? {xs : Array α} {place : Nat} {x : α} (h : xs[place]? = some x) :
    element xs place = .ok x := by
  rw [element, h]

theorem element_eq {xs : Array α} {place : Nat} (h : place < xs.size) :
    element xs place = .ok xs[place] :=
  element_of_getElem? (Array.getElem?_eq_getElem h)

theorem stretch_eq {xs : Array α} {start stop : Nat} (ordered : start ≤ stop)
    (within : stop ≤ xs.size) : stretch xs start stop = .ok (xs.extract start stop) :=
  if_pos ⟨ordered, within⟩

theorem write_eq {xs : Array α} {place : Nat} (h : place < xs.size) (x : α) :
    write xs place x = .ok (xs.set place x) := by
  rw [write, if_pos h, Array.setIfInBounds, dif_pos h]

theorem difference_eq {a b : Nat} (h : b ≤ a) : difference a b = .ok (a - b) := if_pos h

theorem remainder_eq {a b : Nat} (h : 0 < b) : remainder a b = .ok (a % b) :=
  if_neg (Nat.ne_of_gt h)

theorem signed_eq {n : Int} (fits : fitsSigned n = true) (b : Build) : signed b n = .ok n := by
  rw [signed, Build.signed?_eq fits]

theorem count_eq {n : Nat} (fits : fitsCount n = true) (b : Build) : count b n = .ok n := by
  rw [count, Build.count?_eq fits]

theorem fits_of_count {b : Build} {n word : Nat} (computed : count b n = .ok word) :
    fitsCount word = true := by
  unfold count at computed
  cases found : b.count? n with
  | none =>
    rw [found] at computed
    cases computed
  | some other =>
    rw [found] at computed
    cases computed
    exact Build.fits_of_count? found

/-! ## Answers -/

@[simp] theorem ok_bind {ε : Type} (a : α) (f : α → Except ε β) : (Except.ok a >>= f) = f a := rfl

@[simp] theorem pure_eq_ok {ε : Type} (a : α) : (pure a : Except ε α) = .ok a := rfl

/-- A checked operation has an answer, and it is that of the operation that runs. -/
def Completes {ε : Type} (checked : Checked α) (answer : Except ε α) : Prop :=
  ∃ a, checked = .ok a ∧ answer = .ok a

/-- A checked operation ends as the one that runs does, with the same answer or the same refusal, and
neither breaks off. -/
def EndsAs (checked : Checked α) (answer : Except Failure α) : Prop :=
  checked = answer.mapError .failure ∧ ∀ cause, answer ≠ .error (.fault cause)

namespace Completes

variable {ε : Type} {x : Checked α} {y : Except ε α}

theorem of_eq {a : α} (checked : x = .ok a) (answer : y = .ok a) : Completes x y :=
  ⟨a, checked, answer⟩

theorem eq_ok {a : α} (h : Completes x y) (answer : y = .ok a) : x = .ok a := by
  obtain ⟨b, checked, found⟩ := h
  rw [checked, Except.ok.inj (found.symm.trans answer)]

theorem bind {f : α → Checked β} {g : α → Except ε β} (h : Completes x y)
    (next : ∀ a, y = .ok a → Completes (f a) (g a)) : Completes (x >>= f) (y >>= g) := by
  obtain ⟨a, rfl, rfl⟩ := h
  exact next a rfl

theorem mapM {f : α → Checked β} {g : α → Except ε β} {l : List α}
    (h : ∀ a ∈ l, Completes (f a) (g a)) : Completes (l.mapM f) (l.mapM g) := by
  induction l with
  | nil => exact ⟨[], rfl, rfl⟩
  | cons a rest ih =>
    obtain ⟨first, later⟩ := List.forall_mem_cons.1 h
    rw [List.mapM_cons, List.mapM_cons]
    exact first.bind fun b _ => (ih later).bind fun bs _ => ⟨b :: bs, rfl, rfl⟩

theorem foldlM {f : β → α → Checked β} {g : β → α → Except ε β} {l : List α}
    (steps : ∀ acc, ∀ a ∈ l, Completes (f acc a) (g acc a)) (start : β) :
    Completes (l.foldlM f start) (l.foldlM g start) := by
  induction l generalizing start with
  | nil => exact ⟨start, rfl, rfl⟩
  | cons a rest ih =>
    rw [List.foldlM_cons, List.foldlM_cons]
    refine (steps start a List.mem_cons_self).bind fun acc _ => ih (fun acc c mem => ?_) acc
    exact steps acc c (List.mem_cons_of_mem a mem)

end Completes

namespace EndsAs

variable {x : Checked α} {y : Except Failure α}

theorem ok (a : α) : EndsAs (.ok a) (.ok a) := by
  refine ⟨rfl, fun cause same => ?_⟩
  cases same

theorem error {cause : Failure} (refusal : ∀ fault, cause ≠ .fault fault) :
    EndsAs (.error (.failure cause) : Checked α) (.error cause) :=
  ⟨rfl, fun fault same => refusal fault (Except.error.inj same)⟩

/-- Where the one has an answer the other has it. -/
theorem eq_ok {a : α} (h : EndsAs x y) (answer : x = .ok a) : y = .ok a := by
  obtain ⟨rfl, -⟩ := h
  cases y with
  | error cause => cases answer
  | ok found =>
    cases answer
    rfl

theorem bind {f : α → Checked β} {g : α → Except Failure β} (h : EndsAs x y)
    (next : ∀ a, y = .ok a → EndsAs (f a) (g a)) : EndsAs (x >>= f) (y >>= g) := by
  obtain ⟨rfl, faultless⟩ := h
  cases y with
  | error cause => exact error fun fault same => faultless fault (by rw [same])
  | ok a => exact next a rfl

theorem foldlM {f : β → α → Checked β} {g : β → α → Except Failure β} {l : List α}
    (steps : ∀ b, ∀ a ∈ l, EndsAs (f b a) (g b a)) (start : β) :
    EndsAs (l.foldlM f start) (l.foldlM g start) := by
  induction l generalizing start with
  | nil => exact ok start
  | cons a rest ih =>
    rw [List.foldlM_cons, List.foldlM_cons]
    refine (steps start a List.mem_cons_self).bind fun b _ => ih (fun b c mem => ?_) b
    exact steps b c (List.mem_cons_of_mem a mem)

end EndsAs

/-! ## Any numbers -/

/-- A checked operation has an answer or a refusal. All it can break off at is a number that no word
holds, and that only in a program which was built to. -/
def Ends (b : Build) (x : Checked α) : Prop :=
  ∀ halt, x = .error halt →
    (∃ cause, halt = .failure cause ∧ ∀ fault, cause ≠ .fault fault) ∨
      b = .checking ∧ ∃ n, halt = .breach (.overflow n)

namespace Ends

variable {b : Build} {x : Checked α}

theorem ok (a : α) : Ends b (.ok a) := by
  rintro halt ⟨⟩

theorem of_eq {a : α} (h : x = .ok a) : Ends b x := h ▸ ok a

theorem error {cause : Failure} (refusal : ∀ fault, cause ≠ .fault fault) :
    Ends b (.error (.failure cause) : Checked α) := by
  rintro halt ⟨⟩
  exact .inl ⟨cause, rfl, refusal⟩

theorem signed (n : Int) : Ends b (Checked.signed b n) := by
  intro halt broken
  rw [Checked.signed] at broken
  cases word : b.signed? n with
  | some found =>
    rw [word] at broken
    cases broken
  | none =>
    rw [word] at broken
    cases broken
    exact .inr ⟨Build.signed?_eq_none word, n, rfl⟩

theorem count (n : Nat) : Ends b (Checked.count b n) := by
  intro halt broken
  rw [Checked.count] at broken
  cases word : b.count? n with
  | some found =>
    rw [word] at broken
    cases broken
  | none =>
    rw [word] at broken
    cases broken
    exact .inr ⟨Build.count?_eq_none word, n, rfl⟩

theorem element {xs : Array α} {place : Nat} (inside : place < xs.size) :
    Ends b (Checked.element xs place) :=
  of_eq (element_eq inside)

theorem bind {f : α → Checked β} (h : Ends b x) (next : ∀ a, x = .ok a → Ends b (f a)) :
    Ends b (x >>= f) := by
  cases x with
  | error halt =>
    rintro _ ⟨⟩
    exact h halt rfl
  | ok a => exact next a rfl

/-- A number that fits goes on as it is; another goes on in one of the two builds only. -/
theorem signed_bind {n : Int} {f : Int → Checked β} (exact : fitsSigned n = true → Ends b (f n))
    (wrapped : b = .wrapping → fitsSigned n ≠ true → Ends b (f (wrapSigned n))) :
    Ends b (Checked.signed b n >>= f) := by
  by_cases fits : fitsSigned n = true
  · rw [signed_eq fits]
    exact exact fits
  · refine (signed n).bind fun word found => ?_
    unfold Checked.signed Build.signed? at found
    rw [if_neg fits] at found
    cases b with
    | checking => cases found
    | wrapping =>
      cases found
      exact wrapped rfl fits

theorem map {f : α → β} (h : Ends b x) : Ends b (f <$> x) := h.bind fun a _ => ok (f a)

theorem mapM {f : α → Checked β} {l : List α} (h : ∀ a ∈ l, Ends b (f a)) : Ends b (l.mapM f) := by
  induction l with
  | nil => exact ok []
  | cons a rest ih =>
    obtain ⟨first, later⟩ := List.forall_mem_cons.1 h
    rw [List.mapM_cons]
    exact first.bind fun _ _ => (ih later).bind fun _ _ => ok _

theorem foldlM {f : β → α → Checked β} {l : List α} (steps : ∀ acc, ∀ a ∈ l, Ends b (f acc a))
    (start : β) : Ends b (l.foldlM f start) := by
  induction l generalizing start with
  | nil => exact ok start
  | cons a rest ih =>
    rw [List.foldlM_cons]
    refine (steps start a List.mem_cons_self).bind fun acc _ => ih (fun acc c mem => ?_) acc
    exact steps acc c (List.mem_cons_of_mem a mem)

end Ends

theorem EndsAs.ends {b : Build} {x : Checked α} {y : Except Failure α} (h : EndsAs x y) : Ends b x := by
  obtain ⟨rfl, faultless⟩ := h
  cases y with
  | ok a => exact .ok a
  | error cause => exact .error fun fault same => faultless fault (by rw [same])

end Checked

end FxPulse
