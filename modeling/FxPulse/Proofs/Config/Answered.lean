import FxPulse.Config.Basic
import FxPulse.Proofs.Failure

/-!
# `Proofs/Config/Answered.lean` — settings that get an answer

Whatever the texts of the settings, reading them should end with a configuration, or with the setting that
is wrong. The readers are chains of steps, and a chain of steps that all answer answers (`Answered.bind`,
`Answered.mapM`). All steps do but one: the unit of a window is cut off before the last byte of its label,
and a label can end in a character of several bytes.

> Settings are answered unless the first label of a window that cannot be read ends in such a character
> (`load_answered_iff`).

A label before it that is merely wrong is reported first, and then there is an answer after all.
-/

set_option autoImplicit false

namespace FxPulse

/-! ## Answers -/

/-- There is a value, or a setting that is wrong. -/
def Answered {α : Type} (x : Except Failure α) : Prop :=
  (∃ a, x = .ok a) ∨ ∃ cause, x = .error (.misconfigured cause)

namespace Answered

variable {α β : Type}

theorem ok (a : α) : Answered (.ok a) := .inl ⟨a, rfl⟩

theorem refuse (cause : Misconfiguration) : Answered (Setting.refuse cause : Except Failure α) :=
  .inr ⟨cause, rfl⟩

theorem not_fault (fault : Fault) : ¬ Answered (.error (.fault fault) : Except Failure α) := by
  rintro (⟨a, same⟩ | ⟨cause, same⟩)
  · cases same
  · cases same

theorem bind {x : Except Failure α} {f : α → Except Failure β} (h : Answered x)
    (next : ∀ a, x = .ok a → Answered (f a)) : Answered (x >>= f) := by
  rcases h with ⟨a, rfl⟩ | ⟨cause, rfl⟩
  · exact next a rfl
  · exact .inr ⟨cause, rfl⟩

theorem ite {p : Prop} [Decidable p] {x y : Except Failure α} (yes : Answered x) (no : Answered y) :
    Answered (if p then x else y) := by
  split
  · exact yes
  · exact no

theorem mapM {f : α → Except Failure β} (h : ∀ a, Answered (f a)) (l : List α) :
    Answered (l.mapM f) := by
  induction l with
  | nil => exact ok []
  | cons a rest ih =>
    rw [List.mapM_cons]
    exact (h a).bind fun b _ => ih.bind fun bs _ => ok (b :: bs)

end Answered

/-! ## Readers that always answer -/

namespace Setting

variable {α β : Type}

theorem answered_one (kind : Kind α) (key raw : String) : Answered (one kind key raw) := by
  unfold one
  split
  · exact .ok _
  · exact .refuse _

theorem answered_onePositive (kind : Kind α) (key raw : String) :
    Answered (onePositive kind key raw) :=
  (answered_one kind key raw).bind fun _ _ => .ite (.ok _) (.refuse _)

theorem answered_pair (first : Kind α) (second : Kind β) (key entry : String) :
    Answered (pair first second key entry) := by
  unfold pair
  split
  · exact .refuse _
  · exact (answered_one first key _).bind fun _ _ => (answered_one second key _).bind fun _ _ =>
      .ite (.ok _) (.refuse _)

theorem answered_pairs (first : Kind α) (second : Kind β) (key raw : String) :
    Answered (pairs first second key raw) :=
  .mapM (answered_pair first second key) _

end Setting

namespace Config

theorem answered_readGap (raw : String) : Answered (readGap raw) :=
  (Setting.answered_one _ _ raw).bind fun _ _ => .ite (.refuse _) (.ok _)

theorem answered_readVolatility (raw : String) : Answered (readVolatility raw) := by
  refine (Setting.answered_pairs _ _ _ raw).bind fun windows _ => ?_
  split
  · exact .ok _
  · exact .ite (.ok _) (.refuse _)
  · exact .refuse _

theorem answered_readPip (entry : String) : Answered (readPip entry) := by
  unfold readPip
  split
  · exact .refuse _
  · exact (Setting.answered_one _ _ _).bind fun _ _ => .ite (.refuse _) (.ok _)

theorem answered_readAlpha (raw : String) : Answered (readAlpha raw) :=
  (Setting.answered_one _ _ raw).bind fun _ _ => .ite (.ok _) (.refuse _)

theorem answered_readBands (overbought oversold : String) : Answered (readBands overbought oversold) :=
  (Setting.answered_one _ _ overbought).bind fun _ _ => (Setting.answered_one _ _ oversold).bind fun _ _ =>
    .ite (.refuse _) (.ok _)

end Config

/-! ## Labels of windows -/

namespace Window

/-- The text, without what pads it, ends in a character of several bytes. -/
def EndsWide (text : String) : Prop :=
  ∃ last, (Text.trim text).toList.getLast? = some last ∧ last.utf8Size ≠ 1

instance (text : String) : Decidable (EndsWide text) :=
  decidable_of_iff ((Text.trim text).toList.getLast?.any fun last => last.utf8Size != 1) (by
    cases h : (Text.trim text).toList.getLast? <;> simp [EndsWide, h])

/-- A text is at least as long as its last character. -/
theorem utf8Size_le_of_getLast? {text : String} {last : Char} (h : text.toList.getLast? = some last) :
    last.utf8Size ≤ text.utf8ByteSize := by
  obtain ⟨front, whole⟩ := List.getLast?_eq_some_iff.1 h
  rw [← String.ofList_toList (s := text), whole, String.ofList_append, String.utf8ByteSize_append]
  simp

/-- A label is cut, or found to be none, unless it ends in a character of several bytes. -/
theorem ofLabel_eq_error_iff {text : String} {fault : Fault} :
    ofLabel text = .error fault ↔ EndsWide text ∧ fault = .unitInsideCharacter (Text.trim text) := by
  unfold ofLabel
  dsimp only
  cases ending : (Text.trim text).toList.getLast? with
  | none => simp [EndsWide, ending]
  | some last =>
    have long := utf8Size_le_of_getLast? ending
    have positive := last.utf8Size_pos
    simp only [EndsWide, ending, Option.some.injEq, exists_eq_left']
    by_cases short : (Text.trim text).utf8ByteSize < 2
    · have narrow : last.utf8Size = 1 := by omega
      simp [short, narrow]
    · by_cases narrow : last.utf8Size = 1
      · simp [short, narrow]
      · simp [short, narrow, eq_comm]

theorem exists_ofLabel_iff {text : String} : (∃ found, ofLabel text = .ok found) ↔ ¬ EndsWide text := by
  cases read : ofLabel text with
  | error fault => simp [(ofLabel_eq_error_iff.1 read).1]
  | ok found =>
    simp only [Except.ok.injEq, exists_eq', true_iff]
    intro wide
    rw [ofLabel_eq_error_iff.2 ⟨wide, rfl⟩] at read
    cases read

end Window

/-! ## The configuration -/

namespace Config

theorem readWindow_eq (label : String) :
    readWindow label = match Window.ofLabel label with
      | .ok (some w) => .ok w
      | .ok none => Setting.refuse (.badWindowLabel label)
      | .error fault => .error (.fault fault) := by
  unfold readWindow
  cases Window.ofLabel label with
  | error fault => rfl
  | ok found => cases found <;> rfl

/-- The labels of windows, as they are set. -/
def windowLabels (lookup : Lookup) : List String :=
  Text.items ((lookup "WINDOWS").getD "15m,1h,4h,8h,12h,24h")

/-- Of some labels, the first that is not read as that of a window ends in a character of several bytes. -/
def Stumbles (labels : List String) (label : String) : Prop :=
  ∃ front back, labels = front ++ label :: back ∧
    (∀ earlier ∈ front, ∃ w, Window.ofLabel earlier = .ok (some w)) ∧ Window.EndsWide label

theorem readWindows_eq_fault_iff {raw : String} {fault : Fault} :
    readWindows raw = .error (.fault fault) ↔
      ∃ label, Stumbles (Text.items raw) label ∧ fault = .unitInsideCharacter (Text.trim label) := by
  have walked : readWindows raw = .error (.fault fault) ↔
      (Text.items raw).mapM readWindow = .error (.fault fault) := by
    unfold readWindows
    cases (Text.items raw).mapM readWindow with
    | error cause => simp [bind, Except.bind]
    | ok windows => cases windows <;> simp [bind, Except.bind, Setting.refuse, pure, Except.pure]
  have reads : ∀ label, (∃ w, readWindow label = .ok w) ↔ ∃ w, Window.ofLabel label = .ok (some w) := by
    intro label
    rw [readWindow_eq]
    split <;> simp_all [Setting.refuse]
  have stops : ∀ label, readWindow label = .error (.fault fault) ↔
      Window.EndsWide label ∧ fault = .unitInsideCharacter (Text.trim label) := by
    intro label
    rw [← Window.ofLabel_eq_error_iff, readWindow_eq]
    split <;> simp_all [Setting.refuse]
  rw [walked, mapM_eq_error_iff]
  simp only [reads, stops, Stumbles]
  constructor
  · rintro ⟨front, label, back, split, before, wide, rfl⟩
    exact ⟨label, ⟨front, back, split, before, wide⟩, rfl⟩
  · rintro ⟨label, ⟨front, back, split, before, wide⟩, rfl⟩
    exact ⟨front, label, back, split, before, wide, rfl⟩

/-- Windows are read, or one of them is wrong, or there is a step without an answer. -/
theorem readWindows_cases (raw : String) :
    Answered (readWindows raw) ∨ ∃ fault, readWindows raw = .error (.fault fault) := by
  cases walked : (Text.items raw).mapM readWindow with
  | ok windows =>
    left
    rw [readWindows, walked]
    cases windows with
    | nil => exact .refuse _
    | cons first rest => exact .ok _
  | error cause =>
    have failed : readWindows raw = .error cause := by
      rw [readWindows, walked]
      rfl
    obtain ⟨front, label, back, -, -, own⟩ := mapM_eq_error_iff.1 walked
    rw [readWindow_eq] at own
    rw [failed]
    split at own
    · cases own
    · obtain rfl := Except.error.inj own
      exact .inl (.refuse _)
    · obtain rfl := Except.error.inj own
      exact .inr ⟨_, rfl⟩

/-- Once windows are read, all else is answered. -/
theorem load_eq_bind (lookup : Lookup) :
    ∃ rest : List Window → Except Failure Config, (∀ windows, Answered (rest windows)) ∧
      load lookup = readWindows ((lookup "WINDOWS").getD "15m,1h,4h,8h,12h,24h") >>= rest := by
  refine ⟨_, fun windows => ?_, rfl⟩
  dsimp only
  refine .ite (.refuse _) ?_
  refine .bind (Setting.answered_pairs _ _ _ _) fun triggers _ => ?_
  refine .bind (Setting.answered_pairs _ _ _ _) fun outcomes _ => ?_
  refine .bind (answered_readGap _) fun burstGap _ => ?_
  refine .bind (Setting.answered_one _ _ _) fun rsiPeriod _ => ?_
  refine .bind (answered_readVolatility _) fun volatility _ => ?_
  refine .bind (.mapM answered_readPip _) fun pips _ => ?_
  refine .bind (answered_readAlpha _) fun alpha _ => ?_
  refine .bind (answered_readBands _ _) fun bands _ => ?_
  -- The settings of the oscillators, in the order of their fields.
  refine .bind (Setting.answered_onePositive _ _ _) fun rsi _ => ?_
  refine .bind (Setting.answered_onePositive _ _ _) fun stochasticK _ => ?_
  refine .bind (Setting.answered_onePositive _ _ _) fun stochasticD _ => ?_
  refine .bind (Setting.answered_onePositive _ _ _) fun zScoreWindow _ => ?_
  refine .bind (Setting.answered_onePositive _ _ _) fun rankWindow _ => ?_
  refine .bind (Setting.answered_one _ _ _) fun zScoreBand _ => ?_
  refine .bind (Setting.answered_one _ _ _) fun apiPort _ => ?_
  refine .bind (Setting.answered_one _ _ _) fun slack _ => ?_
  refine .bind (Setting.answered_onePositive _ _ _) fun refreshInterval _ => ?_
  refine .bind (Setting.answered_one _ _ _) fun minTotal _ => ?_
  refine .bind (Setting.answered_onePositive _ _ _) fun tableReload _ => ?_
  exact .ok _

/-- Settings break off where the windows do, and nowhere else. -/
theorem load_eq_fault_iff {lookup : Lookup} {fault : Fault} :
    load lookup = .error (.fault fault) ↔
      ∃ label, Stumbles (windowLabels lookup) label ∧ fault = .unitInsideCharacter (Text.trim label) := by
  obtain ⟨rest, answered, chain⟩ := load_eq_bind lookup
  rw [chain, windowLabels, ← readWindows_eq_fault_iff]
  cases read : readWindows ((lookup "WINDOWS").getD "15m,1h,4h,8h,12h,24h") with
  | error cause => simp [bind, Except.bind]
  | ok windows =>
    constructor
    · intro broken
      have calm := answered windows
      rw [show rest windows = .error (.fault fault) from broken] at calm
      exact absurd calm (Answered.not_fault fault)
    · intro broken
      cases broken

/-- Settings of any texts are answered, unless the first label of a window that cannot be read ends in a
character of several bytes: then there is no answer, as the unit would be cut off inside that character. A
single text is read as a window, or found to be none, unless it ends in such a character. -/
theorem load_answered_iff (lookup : Lookup) :
    (Answered (load lookup) ↔ ¬ ∃ label, Stumbles (windowLabels lookup) label) ∧
      (∀ fault, load lookup = .error (.fault fault) ↔
        ∃ label, Stumbles (windowLabels lookup) label ∧ fault = .unitInsideCharacter (Text.trim label)) ∧
      ∀ text, (∃ found, Window.ofLabel text = .ok found) ↔ ¬ Window.EndsWide text := by
  refine ⟨⟨?_, fun calm => ?_⟩, fun fault => load_eq_fault_iff, fun text => Window.exists_ofLabel_iff⟩
  · rintro answered ⟨label, stumbles⟩
    rw [load_eq_fault_iff.2 ⟨label, stumbles, rfl⟩] at answered
    exact Answered.not_fault _ answered
  · obtain ⟨rest, answered, chain⟩ := load_eq_bind lookup
    rcases readWindows_cases ((lookup "WINDOWS").getD "15m,1h,4h,8h,12h,24h") with read | ⟨fault, broken⟩
    · rw [chain]
      exact read.bind fun windows _ => answered windows
    · obtain ⟨label, stumbles, -⟩ := readWindows_eq_fault_iff.1 broken
      exact absurd ⟨label, stumbles⟩ calm

/-- The last letter of the label is two bytes long. -/
example : load (fun name => if name = "WINDOWS" then some "1h, 15м" else none) =
    .error (.fault (.unitInsideCharacter "15м")) := by rfl

example : load (fun name => if name = "WINDOWS" then some "15q, 15м" else none) =
    .error (.misconfigured (.badWindowLabel "15q")) := by rfl

end Config

end FxPulse
