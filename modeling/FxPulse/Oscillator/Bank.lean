import FxPulse.Oscillator.Source

/-!
# `Oscillator/Bank.lean` — many oscillators kept up to date

A bank holds oscillators that follow their sources independently. At a refresh each one is handed
the end of its source and takes in what it has not read yet. Points may share a time, so what has
been read is remembered as a time and a number: the time of the last point read, and how many points
of that time were.
-/

set_option autoImplicit false

namespace FxPulse

/-- Gives the points of a source, in order. With a time, the points before it may be left out.
Nothing is given for a source without history. -/
abbrev Provider := Source → Option Int → Option (Array Point)

/-- How far a source has been read. -/
structure Cursor where
  ts : Int
  /-- Points with that very time that have been read. -/
  atTs : Nat
deriving DecidableEq, Repr

namespace Cursor

/-- The place of the first unread point. -/
def resume (c : Cursor) (points : Array Point) : Nat :=
  let first := Point.countFront points (· < c.ts)
  let past := Point.countFront points (· ≤ c.ts)
  min (first + c.atTs) past

/-- The cursor behind one more point. -/
def advance (cursor : Option Cursor) (ts : Int) : Cursor :=
  match cursor with
  | some c => if c.ts = ts then ⟨ts, c.atTs + 1⟩ else ⟨ts, 1⟩
  | none => ⟨ts, 1⟩

end Cursor

structure BankEntry where
  spec : OscillatorSpec
  state : Oscillator
  cursor : Option Cursor
  output : OscillatorOutput

namespace BankEntry

/-- An oscillator that has read nothing. -/
def start (spec : OscillatorSpec) (state : Oscillator) : BankEntry :=
  ⟨spec, state, none, state.insufficient⟩

def make (spec : OscillatorSpec) : Except Fault BankEntry := do
  return start spec (← Oscillator.make spec.kind)

/-- Takes in one point. -/
def take (e : BankEntry) (p : Point) : BankEntry :=
  let (state, output) := e.state.update p e.spec.bands
  { e with state, output, cursor := some (Cursor.advance e.cursor p.ts) }

/-- The points of the source's end that have not been read. -/
def unread (e : BankEntry) (points : Array Point) : List Point :=
  let start := match e.cursor with
    | some c => c.resume points
    | none => 0
  points.toList.drop start

/-- What the provider has for this entry that it has not read. -/
def pending (e : BankEntry) (provider : Provider) : List Point :=
  match provider e.spec.source (e.cursor.map (·.ts)) with
  | some points => e.unread points
  | none => []

/-- Takes in several points, in order. -/
def takeAll (e : BankEntry) (points : List Point) : BankEntry := points.foldl take e

end BankEntry

structure Bank where
  entries : List BankEntry

namespace Bank

def empty : Bank := ⟨[]⟩

instance : EmptyCollection Bank := ⟨empty⟩

def size (b : Bank) : Nat := b.entries.length

/-- Whether the bank holds an oscillator with the same source, kind and bands. -/
def holds (b : Bank) (spec : OscillatorSpec) : Bool := b.entries.any fun e => e.spec.sameAs spec

/-- Adds an oscillator unless the bank holds it, and tells whether it was added. -/
def ensure (b : Bank) (spec : OscillatorSpec) : Except Fault (Bank × Bool) :=
  if b.holds spec then .ok (b, false)
  else do return (⟨b.entries ++ [← BankEntry.make spec]⟩, true)

/-- Adds several, and tells how many were new. -/
def ensureAll (b : Bank) (specs : List OscillatorSpec) : Except Fault (Bank × Nat) :=
  specs.foldlM (fun (bank, added) spec => do
      let (bank, isNew) ← bank.ensure spec
      return (bank, if isNew then added + 1 else added))
    (b, 0)

/-- Lets every oscillator read on, and tells how many points were read in all. -/
def refresh (b : Bank) (provider : Provider) : Bank × Nat :=
  let reads := b.entries.map fun e => (e, e.pending provider)
  (⟨reads.map fun (e, points) => e.takeAll points⟩,
    reads.foldl (fun total (_, points) => total + points.length) 0)

def readings (b : Bank) : List (OscillatorSpec × OscillatorOutput) :=
  b.entries.map fun e => (e.spec, e.output)

/-- The output of the first oscillator of a kind over a source. -/
def reading? (b : Bank) (source : Source) (kind : OscillatorKind) : Option OscillatorOutput :=
  (b.entries.find? fun e => e.spec.source == source && e.spec.kind == kind).map (·.output)

end Bank

end FxPulse
