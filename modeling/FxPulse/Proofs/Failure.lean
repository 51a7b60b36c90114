import FxPulse.Failure

/-!
# `Proofs/Failure.lean` — what an answer that arrives says

A computation that may fail is a chain of steps, and where its answer is there, every step had one. So
a result is taken apart without opening the steps themselves. The other way round, a walk whose steps
all have an answer has one.
-/

set_option autoImplicit false

namespace FxPulse

variable {ε α β γ δ : Type}

theorem bind_eq_ok_iff {first : Except ε α} {next : α → Except ε β} {result : β} :
    first >>= next = .ok result ↔ ∃ mid, first = .ok mid ∧ next mid = .ok result := by
  cases first with
  | error cause => simp [bind, Except.bind]
  | ok mid => simp [bind, Except.bind]

theorem map_bind {first : Except ε α} {next : α → Except ε β} {g : β → γ} :
    (first >>= next).map g = first >>= fun a => (next a).map g := by
  cases first with
  | error cause => rfl
  | ok a => rfl

theorem foldlM_cons_eq_ok_iff {step : β → α → Except ε β} {a : α} {rest : List α}
    {start result : β} :
    (a :: rest).foldlM step start = .ok result
      ↔ ∃ mid, step start a = .ok mid ∧ rest.foldlM step mid = .ok result := by
  rw [List.foldlM_cons, bind_eq_ok_iff]

/-- A run ends at the first step that fails, whatever would come after it. -/
theorem foldlM_eq_error {step : β → α → Except ε β} {front back : List α} {a : α} {start mid : β}
    {cause : ε} (before : front.foldlM step start = .ok mid) (failed : step mid a = .error cause) :
    (front ++ a :: back).foldlM step start = .error cause := by
  rw [List.foldlM_append, before]
  show (a :: back).foldlM step mid = .error cause
  rw [List.foldlM_cons, failed]
  rfl

theorem exists_ok_of_any {answer : Except ε α} {test : α → Bool}
    (h : answer.toOption.any test = true) : ∃ a, answer = .ok a ∧ test a = true := by
  cases answer with
  | error cause => cases h
  | ok a => exact ⟨a, rfl, h⟩

/-- What every step keeps, a whole run keeps. -/
theorem foldlM_keeps {step : β → α → Except ε β} (kept : β → Prop)
    (keeps : ∀ {start a next}, kept start → step start a = .ok next → kept next) {l : List α}
    {start result : β} (before : kept start) (h : l.foldlM step start = .ok result) :
    kept result := by
  induction l generalizing start with
  | nil => exact Except.ok.inj h ▸ before
  | cons a rest ih =>
    obtain ⟨mid, first, later⟩ := foldlM_cons_eq_ok_iff.1 h
    exact ih (keeps before first) later

/-- Where each step has an answer, so has the walk over the list. -/
theorem mapM_eq_ok {f : α → Except ε β} {g : α → β} {l : List α}
    (h : ∀ a ∈ l, f a = .ok (g a)) : l.mapM f = .ok (l.map g) := by
  induction l with
  | nil => rfl
  | cons a rest ih =>
    obtain ⟨first, later⟩ := List.forall_mem_cons.1 h
    rw [List.mapM_cons, first, ih later]
    rfl

/-- Where each answer tells what it answers to, the answers of a walk tell the list. -/
theorem map_eq_of_mapM {f : α → Except ε β} {g : β → α} (told : ∀ {a b}, f a = .ok b → g b = a)
    {l : List α} {answers : List β} (h : l.mapM f = .ok answers) : answers.map g = l := by
  induction l generalizing answers with
  | nil =>
    cases h
    rfl
  | cons a rest ih =>
    rw [List.mapM_cons] at h
    obtain ⟨first, head, h⟩ := bind_eq_ok_iff.1 h
    obtain ⟨others, tail, h⟩ := bind_eq_ok_iff.1 h
    cases h
    rw [List.map_cons, told head, ih tail]

/-- A walk over a list fails with the first step that fails. -/
theorem mapM_eq_error_iff {f : α → Except ε β} {l : List α} {cause : ε} :
    l.mapM f = .error cause ↔
      ∃ front a back, l = front ++ a :: back ∧ (∀ b ∈ front, ∃ answer, f b = .ok answer) ∧
        f a = .error cause := by
  induction l with
  | nil => simp [pure, Except.pure]
  | cons a rest ih =>
    rw [List.mapM_cons]
    cases own : f a with
    | error first =>
      constructor
      · intro failed
        obtain rfl := Except.error.inj failed
        exact ⟨[], a, rest, rfl, nofun, own⟩
      · rintro ⟨front, b, back, split, before, failed⟩
        cases front with
        | nil =>
          obtain ⟨rfl, rfl⟩ := List.cons.inj split
          rw [own] at failed
          rw [Except.error.inj failed]
          rfl
        | cons c front =>
          obtain ⟨rfl, rfl⟩ := List.cons.inj split
          obtain ⟨answer, answered⟩ := before a List.mem_cons_self
          rw [own] at answered
          cases answered
    | ok answer =>
      have later : (Except.ok answer >>= fun b => rest.mapM f >>= fun bs => pure (b :: bs)) = .error cause
          ↔ rest.mapM f = .error cause := by
        cases rest.mapM f <;> simp [bind, Except.bind, pure, Except.pure]
      rw [later, ih]
      constructor
      · rintro ⟨front, b, back, rfl, before, failed⟩
        exact ⟨a :: front, b, back, rfl, List.forall_mem_cons.2 ⟨⟨answer, own⟩, before⟩, failed⟩
      · rintro ⟨front, b, back, split, before, failed⟩
        cases front with
        | nil =>
          obtain ⟨rfl, rfl⟩ := List.cons.inj split
          rw [own] at failed
          cases failed
        | cons c front =>
          obtain ⟨rfl, rfl⟩ := List.cons.inj split
          exact ⟨front, b, back, rfl, (List.forall_mem_cons.1 before).2, failed⟩

theorem foldlM_eq_ok {step : β → α → Except ε β} {f : β → α → β} (h : ∀ b a, step b a = .ok (f b a))
    (l : List α) (start : β) : l.foldlM step start = .ok (l.foldl f start) := by
  induction l generalizing start with
  | nil => rfl
  | cons a rest ih =>
    rw [List.foldlM_cons, h, List.foldl_cons]
    exact ih _

/-- What each step assures of its answer holds of all answers of the walk. -/
theorem forall_mem_of_mapM {f : α → Except ε β} {p : β → Prop} {l : List α}
    (assured : ∀ a ∈ l, ∀ {b}, f a = .ok b → p b) {answers : List β} (h : l.mapM f = .ok answers) :
    ∀ b ∈ answers, p b := by
  induction l generalizing answers with
  | nil =>
    cases h
    exact nofun
  | cons a rest ih =>
    rw [List.mapM_cons] at h
    obtain ⟨first, head, h⟩ := bind_eq_ok_iff.1 h
    obtain ⟨others, tail, h⟩ := bind_eq_ok_iff.1 h
    cases h
    obtain ⟨own, assured⟩ := List.forall_mem_cons.1 assured
    exact List.forall_mem_cons.2 ⟨own head, ih assured tail⟩

/-- Where a walk has its answers, each step had one. -/
theorem exists_ok_of_mapM {f : α → Except ε β} {l : List α} {answers : List β}
    (h : l.mapM f = .ok answers) {a : α} (mem : a ∈ l) : ∃ b, f a = .ok b := by
  induction l generalizing answers with
  | nil => cases mem
  | cons first rest ih =>
    rw [List.mapM_cons] at h
    obtain ⟨own, head, h⟩ := bind_eq_ok_iff.1 h
    obtain ⟨others, tail, -⟩ := bind_eq_ok_iff.1 h
    rcases List.mem_cons.1 mem with rfl | there
    · exact ⟨own, head⟩
    · exact ih tail there

theorem filterMap_toOption_ne_nil_iff {answers : List (Except ε α)} :
    answers.filterMap Except.toOption ≠ [] ↔ ∃ a, .ok a ∈ answers := by
  constructor
  · intro some_answer
    obtain ⟨a, ha⟩ := List.exists_mem_of_ne_nil _ some_answer
    obtain ⟨answer, given, ok⟩ := List.mem_filterMap.1 ha
    cases answer with
    | error cause => cases ok
    | ok own =>
      cases ok
      exact ⟨a, given⟩
  · rintro ⟨a, given⟩
    exact List.ne_nil_of_mem (List.mem_filterMap.2 ⟨.ok a, given, rfl⟩)

theorem length_of_mapM {f : α → Except ε β} {l : List α} {answers : List β}
    (h : l.mapM f = .ok answers) : answers.length = l.length := by
  induction l generalizing answers with
  | nil =>
    cases h
    rfl
  | cons a rest ih =>
    rw [List.mapM_cons] at h
    obtain ⟨first, -, h⟩ := bind_eq_ok_iff.1 h
    obtain ⟨others, tail, h⟩ := bind_eq_ok_iff.1 h
    cases h
    rw [List.length_cons, List.length_cons, ih tail]

/-! ## Two computations side by side -/

/-- Both fail, and with the same failure, or both have answers, and the answers go together. -/
def Agree (R : α → β → Prop) : Except ε α → Except ε β → Prop
  | .ok a, .ok b => R a b
  | .error cause, .error other => cause = other
  | _, _ => False

theorem Agree.exists_ok {R : α → β → Prop} {x : Except ε α} {y : Except ε β} (h : Agree R x y)
    {b : β} (found : y = .ok b) : ∃ a, x = .ok a ∧ R a b := by
  cases x with
  | error cause =>
    rw [found] at h
    exact h.elim
  | ok a =>
    rw [found] at h
    exact ⟨a, rfl, h⟩

theorem Agree.mono {R S : α → β → Prop} (weaker : ∀ a b, R a b → S a b) {x : Except ε α}
    {y : Except ε β} (h : Agree R x y) : Agree S x y := by
  cases x with
  | error cause =>
    cases y with
    | error other => exact h
    | ok b => exact h.elim
  | ok a =>
    cases y with
    | error other => exact h.elim
    | ok b => exact weaker a b h

theorem Agree.bind {R : α → β → Prop} {S : γ → δ → Prop} {x : Except ε α} {y : Except ε β}
    {f : α → Except ε γ} {g : β → Except ε δ} (h : Agree R x y)
    (next : ∀ a b, R a b → Agree S (f a) (g b)) : Agree S (x >>= f) (y >>= g) := by
  cases x with
  | error cause =>
    cases y with
    | error other => exact h
    | ok b => exact h.elim
  | ok a =>
    cases y with
    | error other => exact h.elim
    | ok b => exact next a b h

/-- Runs whose steps agree agree. -/
theorem Agree.foldlM {R : β → δ → Prop} {f : β → α → Except ε β} {g : δ → α → Except ε δ}
    (steps : ∀ a b d, R b d → Agree R (f b a) (g d a)) (l : List α) {b : β} {d : δ} (start : R b d) :
    Agree R (l.foldlM f b) (l.foldlM g d) := by
  induction l generalizing b d with
  | nil => exact start
  | cons a rest ih =>
    rw [List.foldlM_cons, List.foldlM_cons]
    apply Agree.bind (steps a b d start)
    intro b' d' next
    exact ih next

end FxPulse
