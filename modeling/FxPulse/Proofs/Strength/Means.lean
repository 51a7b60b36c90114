import FxPulse.Proofs.Market.Changes
import FxPulse.Proofs.Strength.Tracked

/-!
# `Proofs/Strength/Means.lean` — a strength is the mean of what pairs contribute

Votes are counted one by one, for each currency apart and within it for each label apart, and a poll keeps
no more of them than their sum and their number. What comes of it can be said without any poll. A pair
contributes its percentage to its base and the opposite percentage to its quote, and

> the strength of a currency over a window is the sum of the contributions to it, in the order of the
> pairs, divided by their number; there is none exactly if there are no contributions.

Sums of floats depend on their order, so the order is part of the statement. A pair of a currency with
itself contributes twice, first as its base.
-/

set_option autoImplicit false

namespace FxPulse

/-! ## Votes -/

/-- The changes seen from the other side: the same labels in the same order, each percentage negated. -/
theorem Changes.Distinct.toList_negate {c : Changes} (distinct : c.Distinct) :
    c.negate.toList = c.toList.map fun change => ⟨change.label, -change.percent⟩ :=
  toList_foldl_insert _ _ distinct

theorem Changes.Distinct.get?_negate {c : Changes} (distinct : c.Distinct) (label : String) :
    c.negate.get? label = (c.get? label).map fun percent => -percent := by
  rw [get?, get?, distinct.toList_negate, List.find?_map, Option.map_map, Option.map_map]
  rfl

theorem Changes.Distinct.negate {c : Changes} (distinct : c.Distinct) : c.negate.Distinct := by
  rw [Distinct, distinct.toList_negate, List.map_map]
  exact distinct

theorem votes?_eq_some_iff {currencies : List String} {instrument : String} {changes : Changes}
    {votes : List (String × Changes)} :
    votes? currencies instrument changes = some votes ↔
      ∃ pair, Pair.ofInstrument? instrument = some pair ∧ pair.within currencies = true ∧
        votes = [(pair.base, changes), (pair.quote, changes.negate)] := by
  unfold votes?
  cases Pair.ofInstrument? instrument with
  | none => simp
  | some pair =>
    dsimp only
    by_cases tracked : pair.within currencies = true
    · rw [if_pos tracked, Option.some.injEq, eq_comm]
      simp [tracked]
    · simp [tracked]

/-! ## Contributions -/

/-- What a pair contributes to a currency over a window: its percentage to its base, and then the opposite
to its quote. -/
def Pair.contributions (pair : Pair) (changes : Changes) (currency label : String) : List Float :=
  match changes.get? label with
  | some percent =>
    (if pair.base = currency then [percent] else []) ++ (if pair.quote = currency then [-percent] else [])
  | none => []

/-- What an instrument contributes, which is nothing unless it quotes one tracked currency in another. -/
def contributed (currencies : List String) (currency label : String) (entry : String × Changes) :
    List Float :=
  match Pair.ofInstrument? entry.1 with
  | some pair => if pair.within currencies then pair.contributions entry.2 currency label else []
  | none => []

/-- What all instruments contribute, in their order. -/
def contributions (currencies : List String) (changes : List (String × Changes))
    (currency label : String) : List Float :=
  changes.flatMap (contributed currencies currency label)

/-- The sum of some percentages from left to right, divided by their number. -/
def meanOf? : List Float → Option Float
  | [] => none
  | first :: rest => some (rest.foldl (· + ·) first / (rest.length + 1).toFloat)

/-! ## Polls -/

namespace Poll

/-- The poll for a label with one more vote. -/
def withVote (label : String) (percent : Float) : Option Poll → Poll
  | none => ⟨label, percent, 1⟩
  | some poll => ⟨label, poll.total + percent, poll.votes + 1⟩

/-- The poll that some votes for a label make up. -/
def ofVotes? (label : String) : List Float → Option Poll
  | [] => none
  | first :: rest => some ⟨label, rest.foldl (· + ·) first, rest.length + 1⟩

theorem ofVotes?_concat (label : String) (votes : List Float) (percent : Float) :
    ofVotes? label (votes ++ [percent]) = some (withVote label percent (ofVotes? label votes)) := by
  cases votes with
  | nil => rfl
  | cons first rest => simp [ofVotes?, withVote]

theorem map_mean_ofVotes? (label : String) (votes : List Float) :
    (ofVotes? label votes).map mean = meanOf? votes := by
  cases votes <;> rfl

theorem find?_add (change : Change) (polls : List Poll) (label : String) :
    (add change polls).find? (·.label == label)
      = if change.label = label then
          some (withVote label change.percent (polls.find? (·.label == label)))
        else polls.find? (·.label == label) := by
  induction polls with
  | nil => by_cases own : change.label = label <;> simp [add, withVote, own]
  | cons poll rest ih =>
    by_cases same : poll.label = change.label
    · by_cases own : change.label = label <;> simp [add, withVote, same, own]
    · have passed : add change (poll :: rest) = poll :: add change rest := by simp [add, same]
      rw [passed, List.find?_cons, List.find?_cons]
      by_cases here : poll.label = label
      · have other : change.label ≠ label := fun own => same (here.trans own.symm)
        simp [here, other]
      · rw [beq_eq_false_iff_ne.2 here]
        exact ih

theorem labels_add (change : Change) (polls : List Poll) :
    (add change polls).map (·.label)
      = if change.label ∈ polls.map (·.label) then polls.map (·.label)
        else polls.map (·.label) ++ [change.label] := by
  induction polls with
  | nil => simp [add]
  | cons poll rest ih =>
    by_cases same : poll.label = change.label
    · simp [add, same]
    · by_cases known : change.label ∈ rest.map (·.label)
      · simp [add, same, ih, known]
      · simp [add, same, Ne.symm same, ih, known]

/-- The polls of one currency after some votes. -/
def tally (votes : List Change) : List Poll := votes.foldl (fun own change => add change own) []

theorem tally_concat (votes : List Change) (change : Change) :
    tally (votes ++ [change]) = add change (tally votes) :=
  List.foldl_concat (fun own change => add change own) [] change votes

theorem nodup_tally (votes : List Change) : ((tally votes).map (·.label)).Nodup := by
  induction votes using List.reverseRecOn with
  | nil => exact List.nodup_nil
  | append_singleton front change ih =>
    rw [tally_concat, labels_add]
    split
    · exact ih
    · rename_i new
      exact List.nodup_append.2 ⟨ih, List.pairwise_singleton _ _, fun own mem other only =>
        List.mem_singleton.1 only ▸ ne_of_mem_of_not_mem mem new⟩

/-- **A poll is made up of the votes for its label**, in the order in which they came. -/
theorem find?_tally (votes : List Change) (label : String) :
    (tally votes).find? (·.label == label)
      = ofVotes? label ((votes.filter (·.label == label)).map (·.percent)) := by
  induction votes using List.reverseRecOn with
  | nil => rfl
  | append_singleton front change ih =>
    rw [tally_concat, find?_add, ih, List.filter_append, List.map_append]
    by_cases own : change.label = label
    · simp [own, ofVotes?_concat]
    · simp [own]

theorem get?_means_tally (votes : List Change) (label : String) :
    (means (tally votes)).get? label
      = meanOf? ((votes.filter (·.label == label)).map (·.percent)) := by
  rw [means, Changes.get?, Changes.toList_foldl_insert _ _ (nodup_tally votes), List.find?_map,
    Option.map_map, ← map_mean_ofVotes? label, ← find?_tally]
  rfl

theorem isEmpty_means_tally (votes : List Change) :
    (means (tally votes)).isEmpty = true ↔ votes = [] := by
  have kept := Changes.toList_foldl_insert Poll.label Poll.mean (nodup_tally votes)
  rw [means, Changes.isEmpty, kept, List.isEmpty_iff, List.map_eq_nil_iff]
  constructor
  · intro nothing
    cases votes with
    | nil => rfl
    | cons first rest =>
      have found := find?_tally (first :: rest) first.label
      rw [nothing] at found
      simp [ofVotes?] at found
  · intro nothing
    rw [nothing]
    rfl

end Poll

/-! ## Currencies -/

namespace Polls

/-- The polls of a currency are those of the votes for it. -/
theorem getD_foldl_count (votes : List (String × Changes)) (currency : String) :
    (votes.foldl count ∅).getD currency []
      = Poll.tally ((votes.filter (·.1 = currency)).flatMap (·.2.toList)) := by
  induction votes using List.reverseRecOn with
  | nil => rfl
  | append_singleton front vote ih =>
    rw [List.foldl_append, List.foldl_cons, List.foldl_nil, count, getD_insert_ite,
      List.filter_append, List.flatMap_append, Poll.tally, List.foldl_append, ← Poll.tally, ← ih]
    by_cases own : vote.1 = currency
    · simp [own]
    · simp [own]

end Polls

section Contributed

variable (currencies : List String)

/-- All votes, instrument by instrument. -/
def allVotes (changes : List (String × Changes)) : List (String × Changes) :=
  (changes.filterMap fun (instrument, own) => votes? currencies instrument own).flatten

/-- The changes that are voted for a currency, one after the other. -/
def votedFor (changes : List (String × Changes)) (currency : String) : List Change :=
  ((allVotes currencies changes).filter (·.1 = currency)).flatMap (·.2.toList)

/-- A currency has the means of what is voted for it, or nothing if that is nothing. -/
theorem Strengths.getElem?_ofChanges (changes : List (String × Changes)) (currency : String) :
    (ofChanges currencies changes)[currency]?
      = if votedFor currencies changes currency = [] then none
        else some (Poll.means (Poll.tally (votedFor currencies changes currency))) := by
  have polls := Polls.getD_foldl_count (allVotes currencies changes) currency
  rw [← votedFor, Std.ExtTreeMap.getD_eq_getD_getElem?] at polls
  rw [ofChanges, ← allVotes, Std.ExtTreeMap.getElem?_filterMap']
  simp only [← Poll.isEmpty_means_tally, ← polls]
  -- A currency without polls is like one whose votes were all empty.
  cases ((allVotes currencies changes).foldl Polls.count ∅)[currency]? with
  | none => rfl
  | some own => rfl

/-- What one instrument puts in front of the votes of the others. -/
theorem votedFor_cons (entry : String × Changes) (rest : List (String × Changes)) (currency : String) :
    votedFor currencies (entry :: rest) currency
      = (((votes? currencies entry.1 entry.2).getD []).filter (·.1 = currency)).flatMap (·.2.toList)
        ++ votedFor currencies rest currency := by
  obtain ⟨instrument, own⟩ := entry
  rw [votedFor, allVotes, List.filterMap_cons]
  dsimp only
  cases votes? currencies instrument own with
  | none => rfl
  | some votes => rw [List.flatten_cons, List.filter_append, List.flatMap_append]; rfl

variable {currencies}

/-- The votes of a pair under a label are its contributions. -/
theorem Pair.percentages_votes (pair : Pair) {changes : Changes} (distinct : changes.Distinct)
    (currency label : String) :
    ((([(pair.base, changes), (pair.quote, changes.negate)].filter (·.1 = currency)).flatMap
        (·.2.toList)).filter (·.label == label)).map (·.percent)
      = pair.contributions changes currency label := by
  have given := distinct.filter_label label
  have opposite := distinct.negate.filter_label label
  rw [distinct.get?_negate] at opposite
  unfold contributions
  cases found : changes.get? label with
  | none =>
    rw [found] at given opposite
    by_cases base : pair.base = currency <;> by_cases quote : pair.quote = currency <;>
      simp [base, quote, given, opposite]
  | some percent =>
    rw [found] at given opposite
    by_cases base : pair.base = currency <;> by_cases quote : pair.quote = currency <;>
      simp [base, quote, given, opposite]

theorem percentages_votes? (entry : String × Changes) (distinct : entry.2.Distinct)
    (currency label : String) :
    (((((votes? currencies entry.1 entry.2).getD []).filter (·.1 = currency)).flatMap
        (·.2.toList)).filter (·.label == label)).map (·.percent)
      = contributed currencies currency label entry := by
  unfold votes? contributed
  cases Pair.ofInstrument? entry.1 with
  | none => rfl
  | some pair =>
    dsimp only
    by_cases tracked : pair.within currencies = true
    · rw [if_pos tracked, if_pos tracked]
      exact pair.percentages_votes distinct currency label
    · rw [if_neg tracked, if_neg tracked]
      rfl

variable {changes : List (String × Changes)} (distinct : ∀ entry ∈ changes, entry.2.Distinct)
include distinct

/-- What is voted for a currency under a label is what is contributed to it. -/
theorem percentages_votedFor (currency label : String) :
    ((votedFor currencies changes currency).filter (·.label == label)).map (·.percent)
      = contributions currencies changes currency label := by
  induction changes with
  | nil => rfl
  | cons entry rest ih =>
    obtain ⟨own, others⟩ := List.forall_mem_cons.1 distinct
    rw [votedFor_cons, List.filter_append, List.map_append, ih others, percentages_votes? entry own]
    rfl

/-- A currency has no votes exactly if nothing is contributed to it under any label. -/
theorem votedFor_eq_nil_iff (currency : String) :
    votedFor currencies changes currency = [] ↔
      ∀ label, contributions currencies changes currency label = [] := by
  constructor
  · intro nothing label
    rw [← percentages_votedFor distinct, nothing]
    rfl
  · intro nothing
    rw [List.eq_nil_iff_forall_not_mem]
    intro change mem
    have own := nothing change.label
    rw [← percentages_votedFor distinct, List.map_eq_nil_iff, List.filter_eq_nil_iff] at own
    exact own change mem (beq_self_eq_true _)

theorem Strengths.get?_ofChanges (currency label : String) :
    ((ofChanges currencies changes)[currency]?.bind fun own => own.get? label)
      = meanOf? (contributions currencies changes currency label) := by
  rw [getElem?_ofChanges, ← percentages_votedFor distinct]
  by_cases nothing : votedFor currencies changes currency = []
  · rw [if_pos nothing, nothing]
    rfl
  · rw [if_neg nothing, Option.bind_some, Poll.get?_means_tally]

theorem Strengths.mem_ofChanges_iff (currency : String) :
    currency ∈ ofChanges currencies changes ↔
      ∃ label, contributions currencies changes currency label ≠ [] := by
  rw [Std.ExtTreeMap.mem_iff_isSome_getElem?, getElem?_ofChanges, ← not_forall,
    ← votedFor_eq_nil_iff distinct]
  by_cases nothing : votedFor currencies changes currency = []
  · simp [nothing]
  · simp [nothing]

end Contributed

/-- **A currency's strength is the mean of the signed contributions to it.** For any currencies and any
instruments with changes whose labels are distinct: over a window a currency has the sum of the
contributions to it, from left to right, divided by their number, and nothing exactly if there are none; it
is absent exactly if there are none over any window. Instruments that quote no tracked currency in another
can be put in or left out anywhere. The votes of one that does are its changes for the base, and for the
quote the same labels with the percentages negated. -/
theorem Strengths.ofChanges_means (currencies : List String) {changes : List (String × Changes)}
    (distinct : ∀ entry ∈ changes, entry.2.Distinct) :
    (∀ currency label, ((ofChanges currencies changes)[currency]?.bind fun own => own.get? label)
        = meanOf? (contributions currencies changes currency label)) ∧
    (∀ currency, currency ∈ ofChanges currencies changes ↔
      ∃ label, contributions currencies changes currency label ≠ []) ∧
    (∀ more : List (String × Changes),
      (more.filter fun entry => isTracked currencies entry.1)
          = (changes.filter fun entry => isTracked currencies entry.1) →
        ofChanges currencies more = ofChanges currencies changes) ∧
    ∀ entry ∈ changes, ∀ votes, votes? currencies entry.1 entry.2 = some votes ↔
      ∃ pair, Pair.ofInstrument? entry.1 = some pair ∧ pair.within currencies = true ∧
        votes = [(pair.base, entry.2),
          (pair.quote, ⟨entry.2.toList.map fun change => ⟨change.label, -change.percent⟩⟩)] := by
  refine ⟨get?_ofChanges distinct, mem_ofChanges_iff distinct, ?_, ?_⟩
  · intro more same
    rw [← ofChanges_filter, same, ofChanges_filter]
  · intro entry mem votes
    rw [votes?_eq_some_iff, ← (distinct entry mem).toList_negate]

/-- A pair with two windows, gold, which quotes no tracked currency in another, a pair that shares one with
the first, and a pair of a currency with itself. -/
def quotedChanges : List (String × Changes) :=
  [("EURUSD", ⟨[⟨"1h", 1.0⟩, ⟨"4h", 2.0⟩]⟩), ("XAUUSD", ⟨[⟨"1h", 9.0⟩]⟩),
    ("USD/JPY", ⟨[⟨"1h", 0.5⟩]⟩), ("EUREUR", ⟨[⟨"1h", 3.0⟩]⟩)]

/-- The dollar is quote and then base, the euro is counted twice by the pair of it with itself, and over
four hours no pair tells of the yen. Gold makes no difference. -/
theorem Strengths.ofChanges_means_quoted :
    let currencies := ["EUR", "USD", "JPY"]
    let strengths := ofChanges currencies quotedChanges
    (∀ entry ∈ quotedChanges, entry.2.Distinct) ∧
    contributions currencies quotedChanges "USD" "1h" = [-1.0, 0.5] ∧
    (strengths["USD"]?.bind fun own => own.get? "1h") = some (-0.25) ∧
    contributions currencies quotedChanges "EUR" "1h" = [1.0, 3.0, -3.0] ∧
    (strengths["JPY"]?.bind fun own => own.get? "4h") = none ∧
    ofChanges currencies (quotedChanges.eraseIdx 1) = strengths := by
  intro currencies strengths
  have distinct : ∀ entry ∈ quotedChanges, entry.2.Distinct := by decide
  obtain ⟨values, -, same, -⟩ := ofChanges_means currencies distinct
  refine ⟨distinct, by decide +kernel, ?_, by decide +kernel, ?_, same _ (by decide +kernel)⟩
  · rw [values]
    decide +kernel
  · rw [values]
    decide +kernel

end FxPulse
