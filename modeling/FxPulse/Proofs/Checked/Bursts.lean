import FxPulse.Checked.Bursts
import FxPulse.Proofs.Checked.Basic

/-!
# `Proofs/Checked/Bursts.lean` — bursts in words

What a word has to hold so that a trigger sees what it should: its window, the window with the gap that
is tolerated, the time that the window reaches back to, and the time since any point that could be the
reference. With that (`Trigger.Fits`) a burst is the one between two points. Without it a window may have
another length than its minutes say, and nothing worse.
-/

set_option autoImplicit false

namespace FxPulse

open FxPulse.Number

/-- A word holds all that is computed of a trigger and a point that looks back on others. -/
structure Trigger.Fits (t : Trigger) (gap : Int) (points : Array Point) (current : Point) : Prop where
  window : fitsSigned t.window = true
  span : fitsSigned (t.window + gap) = true
  target : fitsSigned (current.ts - t.window) = true
  elapsed : ∀ p ∈ points, fitsSigned (current.ts - p.ts) = true

instance Trigger.decidableFits (t : Trigger) (gap : Int) (points : Array Point) (current : Point) :
    Decidable (t.Fits gap points current) :=
  decidable_of_iff (fitsSigned t.window = true ∧ fitsSigned (t.window + gap) = true ∧
    fitsSigned (current.ts - t.window) = true ∧ ∀ p ∈ points, fitsSigned (current.ts - p.ts) = true)
    ⟨fun ⟨window, span, target, elapsed⟩ => ⟨window, span, target, elapsed⟩,
      fun ⟨window, span, target, elapsed⟩ => ⟨window, span, target, elapsed⟩⟩

/-- A word holds all that is computed of an outcome and a point that looks ahead. -/
structure Outcome.Fits (o : Outcome) (current : Point) : Prop where
  horizon : fitsSigned o.horizon = true
  limit : fitsSigned (current.ts + o.horizon) = true

instance Outcome.decidableFits (o : Outcome) (current : Point) : Decidable (o.Fits current) :=
  decidable_of_iff (fitsSigned o.horizon = true ∧ fitsSigned (current.ts + o.horizon) = true)
    ⟨fun ⟨horizon, limit⟩ => ⟨horizon, limit⟩, fun ⟨horizon, limit⟩ => ⟨horizon, limit⟩⟩

namespace Checked

variable {b : Build} {t : Trigger} {gap : Int} {points : Array Point} {current : Point}

section Fits

variable (fits : t.Fits gap points current)
include fits

theorem window_eq : window b t = .ok t.window := signed_eq fits.window b

theorem target_eq : target b t current.ts = .ok (current.ts - t.window) := by
  rw [target, window_eq fits, ok_bind, signed_eq fits.target]

theorem between_eq {reference : Point} (mem : reference ∈ points) (pip : Float) :
    between b current reference pip gap t = .ok (Burst.between? current reference pip gap t) := by
  rw [between, signed_eq (fits.elapsed reference mem), ok_bind, spans, window_eq fits, ok_bind,
    signed_eq fits.span, ok_bind, pure_eq_ok, ok_bind, Burst.between?, Trigger.spans]
  split <;> rfl

end Fits

theorem target_ends (t : Trigger) (now : Int) : Ends b (target b t now) :=
  (Ends.signed _).bind fun _ _ => .signed _

theorem between_ends (current reference : Point) (pip : Float) (gap : Int) (t : Trigger) :
    Ends b (between b current reference pip gap t) := by
  refine (Ends.signed _).bind fun elapsed _ => ?_
  refine ((Ends.signed _).bind fun _ _ => (Ends.signed _).bind fun _ _ => .ok _).bind fun shown _ => ?_
  cases shown <;> exact .ok _

end Checked

end FxPulse
