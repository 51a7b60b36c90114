import Std.Data.ExtTreeMap
import FxPulse.Json.Basic

/-!
# `Engine/Latency.lean` — how long refreshes take

Durations are counted in buckets that are exact for small values and grow wider for large ones, so
that three digits stay significant. A quantile is reported as the greatest duration of its bucket.
-/

set_option autoImplicit false

namespace FxPulse

structure Latency where
  /-- The number of samples in each bucket, by the bucket's greatest value. -/
  buckets : Std.ExtTreeMap Nat Nat
  samples : Nat

namespace Latency

def new : Latency := ⟨∅, 0⟩

/-- Values below this have a bucket each. -/
def exactBelow : Nat := 2048

/-- The greatest value that is counted. -/
def greatestSample : Nat := 0x7FFFFFF

/-- The greatest value in the bucket of `value`. From `exactBelow` on, buckets double their width
each time the value doubles. -/
def bucketTop (value : Nat) : Nat :=
  if value < exactBelow then value
  else
    -- Two for the values from 2048 to 4095, four for those up to 8191, and so on.
    let width := Nat.pow 2 (value.log2 + 1 - exactBelow.log2)
    value / width * width + width - 1

/-- Counts a duration in microseconds; none is shorter than one. -/
def recordMicros (l : Latency) (micros : Nat) : Latency :=
  let value := max micros 1
  if greatestSample < value then l
  else
    let top := bucketTop value
    ⟨l.buckets.insert top (l.buckets.getD top 0 + 1), l.samples + 1⟩

def recordNanos (l : Latency) (nanos : Nat) : Latency := l.recordMicros (nanos / 1000)

/-- The least whole number that is not below `x`. -/
def roundUp (x : Float) : Nat :=
  let down := x.toUInt64
  if down.toFloat < x then down.toNat + 1 else down.toNat

/-- The bucket that holds the sample with a number, counting from the shortest. -/
def bucketOf? (number : Nat) : List (Nat × Nat) → Option Nat
  | [] => none
  | (top, count) :: rest => if number ≤ count then some top else bucketOf? (number - count) rest

/-- The duration that a share of the samples does not exceed. -/
def quantile? (l : Latency) (share : Float) : Option Nat :=
  bucketOf? (max (roundUp (share * l.samples.toFloat)) 1) l.buckets.toList

def p50? (l : Latency) : Option Nat := l.quantile? 0.5

def p95? (l : Latency) : Option Nat := l.quantile? 0.95

def p99? (l : Latency) : Option Nat := l.quantile? 0.99

def toJson (l : Latency) : Json :=
  .record [("samples", .nat l.samples), ("p50_us", .optional .nat l.p50?),
    ("p95_us", .optional .nat l.p95?), ("p99_us", .optional .nat l.p99?)]

end Latency

end FxPulse
