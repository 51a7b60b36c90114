import FxPulse.Number.Ranked
import FxPulse.Number.Sample
import FxPulse.Scan.Tally

/-!
# `Table/Row.lean` — counts turned into probabilities

A row gives the probability that an outcome follows a burst. The raw rate of successes is pulled
towards one half, as if a few more cases of either kind had been seen, so that no row is certain. How
far a row can be trusted shows in the lower bound of its confidence interval and in the number of its
cases.
-/

set_option autoImplicit false

namespace FxPulse

open FxPulse.Number

/-- The rate of successes after `alpha` more successes and `alpha` more failures. -/
def laplace (successes total : Nat) (alpha : Float) : Float :=
  (successes.toFloat + alpha) / (total.toFloat + 2.0 * alpha)

/-- How far a number of cases can be trusted. -/
inductive Tier where
  | low
  | medium
  | high
deriving DecidableEq, Repr

namespace Tier

def ofTotal (total : Nat) : Tier :=
  if 500 ≤ total then .high else if 100 ≤ total then .medium else .low

def text : Tier → String
  | .low => "low"
  | .medium => "medium"
  | .high => "high"

end Tier

structure Row where
  symbol : String
  key : RowKey
  counts : Counts
  probability : Ranked
deriving DecidableEq, Repr

namespace Row

/-- The row for a count. -/
def ofCounts (symbol : String) (alpha : Float) (key : RowKey) (counts : Counts) : Row :=
  ⟨symbol, key, counts, .float (laplace counts.successes counts.total alpha)⟩

/-- The width of a 95 percent interval in standard deviations. -/
def intervalWidth : Float := 1.96

/-- The lower bound of the Wilson interval around the raw rate, zero without cases. -/
def wilsonLower (r : Row) : Float :=
  if r.counts.total = 0 then 0.0
  else
    let n := r.counts.total.toFloat
    let p := r.counts.successes.toFloat / n
    let z2 := intervalWidth * intervalWidth
    let centre := p + z2 / (2.0 * n)
    let margin := intervalWidth * (p * (1.0 - p) / n + z2 / (4.0 * n * n)).sqrt
    greater ((centre - margin) / (1.0 + z2 / n)) 0.0

def tier (r : Row) : Tier := Tier.ofTotal r.counts.total

/-- The greater probability first, then the greater number of cases. -/
def ranking (a b : Row) : Ordering :=
  (Ranked.order b.probability a.probability).then (compare b.counts.total a.counts.total)

end Row

end FxPulse
