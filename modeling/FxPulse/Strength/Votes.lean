import FxPulse.Market.Pair
import FxPulse.History.Moves

/-!
# `Strength/Votes.lean` — currencies out of pairs

When a pair rises, its base currency has gained and its quote currency has lost. So each pair votes
twice: its changes for the base, the same changes negated for the quote. The strength of a currency
over a window is the mean of the votes for it.
-/

set_option autoImplicit false

namespace FxPulse

/-- The strengths of currencies, by currency. -/
abbrev Strengths := Std.ExtTreeMap String Changes

namespace Changes

/-- The changes seen from the other side. -/
def negate (c : Changes) : Changes :=
  c.toList.foldl (fun negated change => negated.insert change.label (-change.percent)) ∅

end Changes

/-- What a pair's changes say of its two currencies, if both are tracked. -/
def votes? (currencies : List String) (instrument : String) (changes : Changes) :
    Option (List (String × Changes)) :=
  match Pair.ofInstrument? instrument with
  | some pair =>
    if pair.within currencies then some [(pair.base, changes), (pair.quote, changes.negate)] else none
  | none => none

/-- The votes for one window: their sum and their number. -/
structure Poll where
  label : String
  total : Float
  votes : Nat
deriving DecidableEq, Repr

namespace Poll

/-- Adds a vote to the poll with its label, or opens one. -/
def add (change : Change) : List Poll → List Poll
  | [] => [⟨change.label, change.percent, 1⟩]
  | poll :: rest =>
    if poll.label == change.label then ⟨poll.label, poll.total + change.percent, poll.votes + 1⟩ :: rest
    else poll :: add change rest

def mean (p : Poll) : Float := p.total / p.votes.toFloat

/-- The means of one currency's polls, in the order in which the polls were opened. -/
def means (polls : List Poll) : Changes :=
  polls.foldl (fun changes poll => changes.insert poll.label poll.mean) ∅

end Poll

/-- The polls of all currencies. -/
abbrev Polls := Std.ExtTreeMap String (List Poll)

namespace Polls

/-- Counts the votes of one currency. A currency that is voted on has an entry even when the changes
are empty. -/
def count (polls : Polls) (vote : String × Changes) : Polls :=
  polls.insert vote.1
    (vote.2.toList.foldl (fun own change => Poll.add change own) (polls.getD vote.1 []))

end Polls

/-- The strength of every tracked currency that some pair votes on. -/
def Strengths.ofChanges (currencies : List String) (changes : List (String × Changes)) : Strengths :=
  let votes := (changes.filterMap fun (instrument, c) => votes? currencies instrument c).flatten
  let polls := votes.foldl Polls.count ∅
  polls.filterMap fun _ own =>
    let means := Poll.means own
    if means.isEmpty then none else some means

/-- The strengths that an instrument store gives rise to. -/
def TickStore.strengths (s : TickStore) (currencies : List String) (windows : List Window)
    (instruments : List String) : Strengths :=
  Strengths.ofChanges currencies (instruments.map fun i => (i, s.changes windows i))

end FxPulse
