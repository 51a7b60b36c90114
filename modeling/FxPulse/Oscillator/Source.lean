import FxPulse.History.Search
import FxPulse.Oscillator.Basic

/-!
# `Oscillator/Source.lean` — what an oscillator listens to

The price of an instrument, the strength of a currency, or the difference between the strengths of
two. The two strengths of a difference need not be sampled at the same times, so each sample of the
base is set against the latest sample of the quote that is not after it.
-/

set_option autoImplicit false

namespace FxPulse

inductive Source where
  | price (instrument : String)
  | strength (currency window : String)
  | differential (base quote window : String)
deriving DecidableEq, Repr

def Source.text : Source → String
  | .price instrument => "price:" ++ instrument
  | .strength currency window => "strength:" ++ currency ++ ":" ++ window
  | .differential base quote window => "diff:" ++ base ++ "-" ++ quote ++ ":" ++ window

/-- An oscillator over a source, with its bands. -/
structure OscillatorSpec where
  source : Source
  kind : OscillatorKind
  bands : Bands
deriving DecidableEq, Repr

namespace OscillatorSpec

def label (s : OscillatorSpec) : String := s.kind.text ++ " " ++ s.source.text

/-- The same source and kind, and the same bands. -/
def sameAs (a b : OscillatorSpec) : Bool :=
  a.source == b.source && a.kind == b.kind && a.bands.sameAs b.bands

end OscillatorSpec

/-- The difference `base - quote` at the times of the base. Samples of the base before the first of
the quote have nothing to be set against. -/
def differences (base quote : Array Point) : Array Point :=
  base.filterMap fun b =>
    (Point.covering? quote b.ts).map fun q => ⟨b.ts, b.value - q.value⟩

end FxPulse
