/-!
# `Market/Quote.lean` — quotes, points and bars

Times are milliseconds since the epoch.
-/

set_option autoImplicit false

namespace FxPulse

/-- Milliseconds in a minute. -/
def minute : Int := 60000

/-- One quote of an instrument. -/
structure Tick where
  instrument : String
  bid : Float
  ask : Float
  ts : Int
deriving DecidableEq, Repr

def Tick.mid (t : Tick) : Float := (t.bid + t.ask) / 2.0

/-- A value at a time: a mid price, or the strength of a currency. -/
structure Point where
  ts : Int
  value : Float
deriving DecidableEq, Repr, Inhabited

/-- A minute of trading. -/
structure Bar where
  ts : Int
  openPrice : Float
  high : Float
  low : Float
  close : Float
deriving DecidableEq, Repr, Inhabited

def Bar.prices (b : Bar) : List Float := [b.openPrice, b.high, b.low, b.close]

/-- The close of a bar, at the bar's time. -/
def Bar.closing (b : Bar) : Point := ⟨b.ts, b.close⟩

end FxPulse
