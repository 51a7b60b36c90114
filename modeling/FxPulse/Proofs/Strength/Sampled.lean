import FxPulse.Proofs.Engine.Reach
import FxPulse.Proofs.Market.Changes
import Mathlib.Data.List.Nodup
import Mathlib.Order.Bounds.Defs

/-!
# `Proofs/Strength/Sampled.lean` — one sample for each time of the data

Instruments keep time apart from one another, and the time of the data is the latest of any of them. It can
fall back when history is dropped, and strengths come and go with the pairs that vote. Through all that

> strengths are recorded when the time of the data is past the last recording, and only then; every
> strength there is at that moment is taken, and none is passed over as late.

What a run has recorded is told as a log of its own, `Recorded`, that knows nothing of the time an engine
remembers. That the two agree, and that every series is the end of the samples in the log, is the invariant
`Account`.
-/

set_option autoImplicit false

namespace FxPulse

theorem Poll.distinct_means (polls : List Poll) : (Poll.means polls).Distinct :=
  List.foldlRecOn polls _ List.nodup_nil fun _ distinct poll _ => distinct.insert poll.label poll.mean

theorem Strengths.distinct_ofChanges {currencies : List String} {changes : List (String × Changes)}
    {currency : String} {own : Changes} (h : (ofChanges currencies changes)[currency]? = some own) :
    own.Distinct := by
  rw [ofChanges, Std.ExtTreeMap.getElem?_filterMap', Option.bind_eq_some_iff] at h
  obtain ⟨polls, -, h⟩ := h
  dsimp only at h
  split at h
  · cases h
  · cases h
    exact Poll.distinct_means polls

namespace StrengthHistory

/-! ## Samples -/

section Samples

variable {strengths : Strengths}
  (distinct : ∀ (currency : String) (own : Changes), strengths[currency]? = some own → own.Distinct)
include distinct

/-- A key has at most one sample. -/
theorem nodup_samples : ((samples strengths).map Prod.fst).Nodup := by
  rw [samples, List.map_flatMap, List.nodup_flatMap]
  constructor
  · rintro ⟨currency, own⟩ mem
    have once := distinct currency own (Std.ExtTreeMap.mem_toList_iff_getElem?_eq_some.1 mem)
    rw [List.map_map]
    exact List.Nodup.of_map StrengthKey.window (by rwa [List.map_map])
  · refine Std.ExtTreeMap.distinct_keys_toList.imp ?_
    rintro ⟨currency, own⟩ ⟨other, theirs⟩ apart key mem others
    dsimp only at mem others
    rw [List.map_map, List.mem_map] at mem others
    obtain ⟨change, -, rfl⟩ := mem
    obtain ⟨_, -, same⟩ := others
    exact apart (Std.LawfulEqOrd.compare_eq_iff_eq.2 (congrArg StrengthKey.currency same).symm)

/-- The samples are the strengths, currency by currency and label by label. -/
theorem mem_samples_iff {key : StrengthKey} {percent : Float} :
    (key, percent) ∈ samples strengths
      ↔ (strengths[key.currency]?.bind (·.get? key.window)) = some percent := by
  rw [samples, List.mem_flatMap, Option.bind_eq_some_iff]
  constructor
  · rintro ⟨⟨currency, own⟩, mem, sample⟩
    have found := Std.ExtTreeMap.mem_toList_iff_getElem?_eq_some.1 mem
    obtain ⟨change, inside, same⟩ := List.mem_map.1 sample
    cases same
    exact ⟨own, found, (distinct currency own found).get?_eq_some_iff.2 inside⟩
  · rintro ⟨own, found, sample⟩
    exact ⟨(key.currency, own), Std.ExtTreeMap.mem_toList_iff_getElem?_eq_some.2 found,
      List.mem_map.2 ⟨⟨key.window, percent⟩,
        (distinct key.currency own found).get?_eq_some_iff.1 sample, rfl⟩⟩

end Samples

/-! ## Recording -/

/-- The series of a key, empty if it has none yet. -/
def seriesOf (h : StrengthHistory) (key : StrengthKey) : Series :=
  h.series.getD key (Series.new h.retention seriesCapacity)

theorem recordOne_of_push {h : StrengthHistory} {ts : Int} {key : StrengthKey} {percent : Float}
    {grown : Series} (pushed : (h.seriesOf key).push ⟨ts, percent⟩ = .ok grown) :
    h.recordOne ts key percent = ({ h with series := h.series.insert key grown }, true) := by
  unfold seriesOf at pushed
  rw [recordOne, pushed]

theorem seriesOf_congr {h other : StrengthHistory} (retention : other.retention = h.retention)
    {key : StrengthKey} (same : other.series[key]? = h.series[key]?) :
    other.seriesOf key = h.seriesOf key := by
  rw [seriesOf, seriesOf, Std.ExtTreeMap.getD_eq_getD_getElem?, Std.ExtTreeMap.getD_eq_getD_getElem?,
    same, retention]

theorem seriesOf_of_getElem? {h : StrengthHistory} {key : StrengthKey} {series : Series}
    (there : h.series[key]? = some series) : h.seriesOf key = series := by
  rw [seriesOf, Std.ExtTreeMap.getD_eq_getD_getElem?, there, Option.getD_some]

theorem seriesOf_insert_of_ne {h : StrengthHistory} {key other : StrengthKey} (apart : other ≠ key)
    (grown : Series) :
    seriesOf { h with series := h.series.insert key grown } other = h.seriesOf other := by
  apply seriesOf_congr
  · rfl
  · rw [getElem?_insert_ite, if_neg apart.symm]

/-- Every sample is accepted by the series of its key, and no other series changes. -/
structure Takes (h : StrengthHistory) (ts : Int) (taken : List (StrengthKey × Float))
    (after : StrengthHistory) : Prop where
  accepted : ∀ key percent, (key, percent) ∈ taken →
    ∃ grown, (h.seriesOf key).push ⟨ts, percent⟩ = .ok grown ∧ after.series[key]? = some grown
  others : ∀ key, key ∉ taken.map Prod.fst → after.series[key]? = h.series[key]?
  retention : after.retention = h.retention

theorem takes_nil (h : StrengthHistory) (ts : Int) : h.Takes ts [] h := ⟨nofun, fun _ _ => rfl, rfl⟩

theorem Takes.cons {h after : StrengthHistory} {ts : Int} {key : StrengthKey} {percent : Float}
    {rest : List (StrengthKey × Float)} {grown : Series}
    (pushed : (h.seriesOf key).push ⟨ts, percent⟩ = .ok grown) (apart : key ∉ rest.map Prod.fst)
    (later : Takes { h with series := h.series.insert key grown } ts rest after) :
    h.Takes ts ((key, percent) :: rest) after := by
  refine ⟨?_, ?_, later.retention⟩
  · intro k p mem
    rcases List.mem_cons.1 mem with first | mem
    · cases first
      refine ⟨grown, pushed, ?_⟩
      rw [later.others _ apart, Std.ExtTreeMap.getElem?_insert_self]
    · have other : k ≠ key := ne_of_mem_of_not_mem (List.mem_map.2 ⟨_, mem, rfl⟩) apart
      obtain ⟨next, accepted, there⟩ := later.accepted k p mem
      rw [seriesOf_insert_of_ne other] at accepted
      exact ⟨next, accepted, there⟩
  · intro k absent
    rw [List.map_cons, List.mem_cons, not_or] at absent
    rw [later.others k absent.2, getElem?_insert_ite, if_neg (Ne.symm absent.1)]

/-- Records one of several samples, and counts it if it is taken. -/
def recordNext (ts : Int) : StrengthHistory × Nat → StrengthKey × Float → StrengthHistory × Nat :=
  fun (h, taken) (key, percent) =>
    let (h, accepted) := h.recordOne ts key percent
    (h, if accepted then taken + 1 else taken)

/-- Samples of different keys are all taken, if none of their series has got past their time. -/
theorem takes_foldl {ts : Int} {l : List (StrengthKey × Float)} (once : (l.map Prod.fst).Nodup)
    {h : StrengthHistory} (due : ∀ key ∈ l.map Prod.fst, ∀ last,
      (h.seriesOf key).latest? = some last → last.ts ≤ ts) (taken : Nat) :
    h.Takes ts l (l.foldl (recordNext ts) (h, taken)).1 ∧
      (l.foldl (recordNext ts) (h, taken)).2 = taken + l.length := by
  induction l generalizing h taken with
  | nil => exact ⟨takes_nil h ts, rfl⟩
  | cons sample rest ih =>
    obtain ⟨key, percent⟩ := sample
    rw [List.map_cons] at once due
    obtain ⟨apart, once⟩ := List.nodup_cons.1 once
    obtain ⟨own, due⟩ := List.forall_mem_cons.1 due
    obtain ⟨grown, pushed⟩ : ∃ grown, (h.seriesOf key).push ⟨ts, percent⟩ = .ok grown :=
      ⟨_, Series.push_eq_ok_iff.2 ⟨own, rfl⟩⟩
    -- The keys still to come are others, so their series stand as before.
    have standing : ∀ k ∈ rest.map Prod.fst, ∀ last,
        (seriesOf { h with series := h.series.insert key grown } k).latest? = some last →
          last.ts ≤ ts := by
      intro k mem
      rw [seriesOf_insert_of_ne (ne_of_mem_of_not_mem mem apart)]
      exact due k mem
    obtain ⟨later, count⟩ := ih once standing (taken + 1)
    rw [List.foldl_cons, recordNext, recordOne_of_push pushed]
    refine ⟨Takes.cons pushed apart later, count.trans ?_⟩
    rw [List.length_cons]
    omega

/-- **A recording takes every sample**, if no series has got past its time. -/
theorem record_takes {strengths : Strengths} (once : ((samples strengths).map Prod.fst).Nodup)
    {h : StrengthHistory} {ts : Int}
    (due : ∀ key last, (h.seriesOf key).latest? = some last → last.ts ≤ ts) :
    h.Takes ts (samples strengths) (h.record ts strengths).1 ∧
      (h.record ts strengths).2 = (samples strengths).length := by
  obtain ⟨takes, count⟩ := takes_foldl once (h := h) (fun key _ => due key) 0
  exact ⟨takes, count.trans (Nat.zero_add _)⟩

end StrengthHistory

namespace Engine

open StrengthHistory (samples)

/-! ## The log of recordings -/

/-- The time of the data: the latest tick of any instrument. -/
def IsDataTime (e : Engine) (ts : Int) : Prop :=
  IsGreatest {t | ∃ i ∈ e.store.instruments, ∃ p, e.store.latest i = .ok p ∧ p.ts = t} ts

theorem dataTime?_eq_some_iff {e : Engine} {ts : Int} : e.dataTime? = some ts ↔ e.IsDataTime ts := by
  have times : ∀ t, t ∈ e.store.instruments.filterMap
        (fun i => (e.store.latest i).toOption.map (·.ts))
      ↔ ∃ i ∈ e.store.instruments, ∃ p, e.store.latest i = .ok p ∧ p.ts = t := by
    intro t
    have answer : ∀ i p, (e.store.latest i).toOption = some p ↔ e.store.latest i = .ok p := by
      intro i p
      cases e.store.latest i with
      | error cause => simp [Except.toOption]
      | ok q => simp [Except.toOption]
    simp only [List.mem_filterMap, Option.map_eq_some_iff, answer]
  rw [dataTime?, List.max?_eq_some_iff, IsDataTime, IsGreatest, times]
  exact and_congr_right fun _ => forall_congr' fun t => imp_congr (times t) Iff.rfl

/-- A recording of strengths: the engine as it was found, and the time of the data. -/
structure Recording where
  found : Engine
  ts : Int

/-- The strength of a currency over a window now. -/
def strengthOf? (e : Engine) (key : StrengthKey) : Option Float :=
  e.strength[key.currency]?.bind (·.get? key.window)

/-- The sample of a key in a recording. -/
def Recording.sample? (r : Recording) (key : StrengthKey) : Option Point :=
  (r.found.strengthOf? key).map fun percent => ⟨r.ts, percent⟩

/-- The data has come to a time that is past the last recording. -/
def IsNews (e : Engine) (log : List Recording) (ts : Int) : Prop :=
  e.IsDataTime ts ∧ ∀ last ∈ log.getLast?, last.ts < ts

/-- The recordings of a run: one for each refresh to which the time of the data was news. -/
inductive Recorded (c : Config) : List Recording → Engine → Prop where
  | new (table : Table) : Recorded c [] (new c table)
  | other {log : List Recording} {e after : Engine} {action : Action} (before : Recorded c log e)
      (quiet : action.isRefresh = false) (h : e.perform action = .ok after) : Recorded c log after
  | sampled {log : List Recording} {e after : Engine} {watch : Stopwatch} {ts : Int}
      (before : Recorded c log e) (news : e.IsNews log ts)
      (h : e.perform (.refresh watch) = .ok after) : Recorded c (log ++ [⟨e, ts⟩]) after
  | passed {log : List Recording} {e after : Engine} {watch : Stopwatch} (before : Recorded c log e)
      (nothing : ∀ ts, ¬ e.IsNews log ts) (h : e.perform (.refresh watch) = .ok after) :
      Recorded c log after

/-- Every run has its recordings. -/
theorem Reachable.exists_recorded {c : Config} {e : Engine} (reachable : Reachable c e) :
    ∃ log, Recorded c log e := by
  induction reachable with
  | new table => exact ⟨[], .new table⟩
  | @step e after action before h ih =>
    obtain ⟨log, recorded⟩ := ih
    cases action with
    | refresh watch =>
      by_cases news : ∃ ts, e.IsNews log ts
      · obtain ⟨ts, news⟩ := news
        exact ⟨_, recorded.sampled news h⟩
      · exact ⟨log, recorded.passed (not_exists.1 news) h⟩
    | ingest t => exact ⟨log, recorded.other rfl h⟩
    | setTable table => exact ⟨log, recorded.other rfl h⟩

/-! ## The engine and its log -/

/-- How an engine stands to the recordings of its run. -/
structure Account (log : List Recording) (e : Engine) : Prop where
  ascending : log.Pairwise fun early late => early.ts < late.ts
  timed : ∀ r ∈ log, r.found.IsDataTime r.ts
  sampledAt : e.sampledAt = log.getLast?.map (·.ts)
  kept : ∀ key, (e.strengthHistory.seriesOf key).points.toList <:+ log.filterMap (·.sample? key)

theorem nodup_samples_strength (e : Engine) : ((samples e.strength).map Prod.fst).Nodup :=
  StrengthHistory.nodup_samples fun _ _ => Strengths.distinct_ofChanges

theorem mem_samples_strength_iff {e : Engine} {key : StrengthKey} {percent : Float} :
    (key, percent) ∈ samples e.strength ↔ e.strengthOf? key = some percent :=
  StrengthHistory.mem_samples_iff fun _ _ => Strengths.distinct_ofChanges

theorem Recording.ts_of_sample? {r : Recording} {key : StrengthKey} {p : Point}
    (h : r.sample? key = some p) : p.ts = r.ts := by
  obtain ⟨percent, -, rfl⟩ := Option.map_eq_some_iff.1 h
  rfl

namespace Account

variable {log : List Recording} {e : Engine}

/-- A refresh is due to sample exactly if the time of the data is news. -/
theorem due_iff (account : Account log e) {ts : Int} :
    e.dataTime? = some ts ∧ e.isDue ts = true ↔ e.IsNews log ts := by
  rw [dataTime?_eq_some_iff, IsNews, isDue, account.sampledAt]
  refine and_congr_right fun _ => ?_
  cases log.getLast? with
  | none => simp
  | some last => simp

/-- The last recording is the latest. -/
theorem le_last (account : Account log e) {r : Recording} (mem : r ∈ log) :
    ∃ last ∈ log.getLast?, r.ts ≤ last.ts := by
  cases newest : log.getLast? with
  | none =>
    rw [List.getLast?_eq_none_iff.1 newest] at mem
    cases mem
  | some last =>
    refine ⟨last, rfl, ?_⟩
    obtain ⟨front, rfl⟩ := List.getLast?_eq_some_iff.1 newest
    rcases List.mem_append.1 mem with earlier | this
    · exact Int.le_of_lt ((List.pairwise_append.1 account.ascending).2.2 r earlier last
        (List.mem_singleton_self last))
    · exact Int.le_of_eq (congrArg Recording.ts (List.mem_singleton.1 this))

/-- No series has got past the last recording. -/
theorem upTo (account : Account log e) {key : StrengthKey} {p : Point}
    (newest : (e.strengthHistory.seriesOf key).latest? = some p) :
    ∃ last ∈ log.getLast?, p.ts ≤ last.ts := by
  rw [Series.latest?, ← Array.getLast?_toList] at newest
  obtain ⟨r, mem, sample⟩ := List.mem_filterMap.1
    ((account.kept key).subset (List.mem_of_getLast? newest))
  rw [Recording.ts_of_sample? sample]
  exact account.le_last mem

/-- Where the time of the data is news, a refresh takes every sample. -/
theorem takes (account : Account log e) {ts : Int} (news : e.IsNews log ts) :
    e.sampleStrength.2 = (samples e.strength).length ∧ e.sampleStrength.1.sampledAt = some ts ∧
      e.strengthHistory.Takes ts (samples e.strength) e.sampleStrength.1.strengthHistory := by
  obtain ⟨time, due⟩ := account.due_iff.2 news
  have free : ∀ key p, (e.strengthHistory.seriesOf key).latest? = some p → p.ts ≤ ts := by
    intro key p newest
    obtain ⟨last, recent, order⟩ := account.upTo newest
    exact Int.le_of_lt (Int.lt_of_le_of_lt order (news.2 last recent))
  obtain ⟨takes, count⟩ := StrengthHistory.record_takes e.nodup_samples_strength free
  unfold sampleStrength
  rw [time]
  dsimp only
  rw [if_pos due]
  exact ⟨count, rfl, takes⟩

/-- Where it is not, a refresh leaves the strengths as they are. -/
theorem sampleStrength_eq_self (account : Account log e) (nothing : ∀ ts, ¬ e.IsNews log ts) :
    e.sampleStrength = (e, 0) := by
  rcases e.sampleStrength_eq with ⟨ts, time, due, -⟩ | unchanged
  · exact absurd (account.due_iff.1 ⟨time, due⟩) (nothing ts)
  · exact unchanged

/-- What a refresh does to the strengths is what sampling does. -/
theorem of_sampleStrength {after : Engine} {watch : Stopwatch} {log' : List Recording}
    (account : Account log' e.sampleStrength.1) (h : e.perform (.refresh watch) = .ok after) :
    Account log' after := by
  obtain ⟨summary, refreshed⟩ := perform_refresh_eq_ok h
  obtain ⟨_, _, _, _, _, _, sampling, -, -, rfl, -⟩ := refresh_eq_ok refreshed
  rw [sampling] at account
  exact ⟨account.ascending, account.timed, account.sampledAt, account.kept⟩

/-- A recording takes its place at the end of the log, and each sample at the end of its series. -/
theorem sampled (account : Account log e) {ts : Int} (news : e.IsNews log ts) :
    Account (log ++ [⟨e, ts⟩]) e.sampleStrength.1 := by
  obtain ⟨-, sampledAt, takes⟩ := account.takes news
  refine ⟨?_, ?_, ?_, ?_⟩
  · refine List.pairwise_append.2 ⟨account.ascending, List.pairwise_singleton _ _, ?_⟩
    intro r mem last only
    rw [List.mem_singleton.1 only]
    obtain ⟨l, newest, order⟩ := account.le_last mem
    exact Int.lt_of_le_of_lt order (news.2 l newest)
  · intro r mem
    rcases List.mem_append.1 mem with earlier | this
    · exact account.timed r earlier
    · rw [List.mem_singleton.1 this]
      exact news.1
  · rw [sampledAt, List.getLast?_concat]
    rfl
  · intro key
    rw [List.filterMap_append, List.filterMap_cons, List.filterMap_nil]
    cases strength : e.strengthOf? key with
    | none =>
      have absent : key ∉ (samples e.strength).map Prod.fst := by
        intro mem
        obtain ⟨⟨_, percent⟩, sample, rfl⟩ := List.mem_map.1 mem
        rw [mem_samples_strength_iff.1 sample] at strength
        cases strength
      rw [StrengthHistory.seriesOf_congr takes.retention (takes.others key absent), Recording.sample?,
        strength]
      simpa using account.kept key
    | some percent =>
      obtain ⟨grown, pushed, there⟩ := takes.accepted key percent (mem_samples_strength_iff.2 strength)
      rw [StrengthHistory.seriesOf_of_getElem? there, Recording.sample?, strength]
      obtain ⟨front, whole⟩ := account.kept key
      refine (Series.push_suffix pushed).trans ⟨front, ?_⟩
      rw [← List.append_assoc, whole]
      rfl

end Account

theorem Recorded.account {c : Config} {log : List Recording} {e : Engine} (h : Recorded c log e) :
    Account log e := by
  induction h with
  | new table =>
    refine ⟨List.Pairwise.nil, fun _ mem => absurd mem List.not_mem_nil, rfl, fun key => ⟨[], ?_⟩⟩
    simp [Engine.new, StrengthHistory.seriesOf, StrengthHistory.new, Series.new]
  | @other log e after action before quiet h ih =>
    have same : after.strengthHistory = e.strengthHistory ∧ after.sampledAt = e.sampledAt := by
      cases action with
      | refresh watch => cases quiet
      | ingest t =>
        obtain rfl := Except.ok.inj h
        rcases e.ingest_eq t with ⟨store, point, -, taken⟩ | refused
        · rw [taken]
          exact ⟨rfl, rfl⟩
        · rw [refused]
          exact ⟨rfl, rfl⟩
      | setTable table =>
        obtain rfl := Except.ok.inj h
        exact ⟨rfl, rfl⟩
    exact ⟨ih.ascending, ih.timed, same.2 ▸ ih.sampledAt, same.1 ▸ ih.kept⟩
  | sampled before news h ih => exact (ih.sampled news).of_sampleStrength h
  | passed before nothing h ih =>
    exact Account.of_sampleStrength ((ih.sampleStrength_eq_self nothing).symm ▸ ih) h

/-- **Strengths are sampled once for each time of the data, and none is dropped.** Every run has a log of
its recordings, under any configuration. In a log, times go up, and each is the time of the data at the
refresh that recorded; a series is the end of its key's samples in the log, so its times go up as well. The
next refresh records exactly if the time of the data is past the last recording: then it takes as many
samples as there are strengths, each accepted by its own series, and otherwise none. -/
theorem sampled_once_per_data_time {c : Config} {e : Engine} (reachable : Reachable c e) :
    (∃ log, Recorded c log e) ∧ ∀ log, Recorded c log e →
      (log.Pairwise fun early late => early.ts < late.ts) ∧
      (∀ r ∈ log, r.found.IsDataTime r.ts) ∧
      (∀ key series, e.strengthHistory.series[key]? = some series →
        series.points.toList <:+ log.filterMap (·.sample? key) ∧
          series.points.toList.Pairwise fun early late => early.ts < late.ts) ∧
      ∀ watch after summary, e.refresh watch = .ok (after, summary) →
        (∀ ts, e.IsNews log ts →
          summary.strengthSamples = (samples e.strength).length ∧
            e.strengthHistory.Takes ts (samples e.strength) after.strengthHistory) ∧
        ((∀ ts, ¬ e.IsNews log ts) →
          summary.strengthSamples = 0 ∧ after.strengthHistory = e.strengthHistory) := by
  refine ⟨reachable.exists_recorded, fun log recorded => ?_⟩
  have account := recorded.account
  refine ⟨account.ascending, account.timed, ?_, ?_⟩
  · intro key series there
    have kept := account.kept key
    rw [StrengthHistory.seriesOf_of_getElem? there] at kept
    refine ⟨kept, List.Pairwise.sublist kept.sublist (List.pairwise_filterMap.2 ?_)⟩
    refine account.ascending.imp fun {early late} order p hp q hq => ?_
    rw [Recording.ts_of_sample? hp, Recording.ts_of_sample? hq]
    exact order
  · intro watch after summary refreshed
    obtain ⟨strengthHistory, _, taken, _, _, _, sampling, -, -, rfl, rfl⟩ := refresh_eq_ok refreshed
    constructor
    · intro ts news
      obtain ⟨count, -, takes⟩ := account.takes news
      rw [sampling] at count takes
      exact ⟨count, takes⟩
    · intro nothing
      have unchanged := account.sampleStrength_eq_self nothing
      rw [sampling] at unchanged
      obtain ⟨same, none_taken⟩ := Prod.mk.inj unchanged
      have strengths := congrArg Engine.strengthHistory same
      exact ⟨none_taken, strengths⟩

def euroAndDollar : Config.Lookup
  | "CURRENCIES" => some "EUR,USD"
  | "WINDOWS" => some "5m"
  | "OSC_WINDOW" => some "5m"
  | "TRIGGER_GRID" => some "10:1"
  | "STATE_RSI_PERIOD" => some "0"
  | "STATE_VOL_WINDOWS" => some ""
  | _ => none

/-- Gold is quoted after the euro, first at a time that the euro has passed. -/
def lateGold : List Action :=
  let quote (instrument : String) (ts : Int) (price : Float) : Action :=
    .ingest ⟨instrument, price, price, ts⟩
  [quote "EURUSD" 0 1.0, quote "EURUSD" 60000 1.5, .refresh ⟨0, 1⟩, quote "XAUUSD" 30000 2000.0,
    .refresh ⟨0, 1⟩, quote "XAUUSD" 90000 3000.0]

/-- The time of the data stood still for the second refresh, which took no samples. It has moved on for the
next one, by a quote of gold: both currencies are sampled once more. -/
theorem sampled_once_per_data_time_late : ∃ c e log after summary,
    Config.load euroAndDollar = .ok c ∧ (new c ∅).performAll lateGold = .ok e ∧ Reachable c e ∧
      Recorded c log e ∧ log.getLast?.map (·.ts) = some 60000 ∧
      e.refresh ⟨0, 1⟩ = .ok (after, summary) ∧ summary.strengthSamples = 2 ∧
      e.strengthHistory.Takes 90000 (samples e.strength) after.strengthHistory := by
  have computed : (Config.load euroAndDollar).toOption.any (fun c : Config =>
      ((new c ∅).performAll lateGold).toOption.any fun e =>
        decide (e.dataTime? = some 90000 ∧ e.sampledAt = some 60000 ∧
          (samples e.strength).length = 2) &&
        (e.refresh ⟨0, 1⟩).toOption.any fun _ => true) = true := by
    decide +kernel
  obtain ⟨c, loaded, rest⟩ := exists_ok_of_any computed
  obtain ⟨e, ran, rest⟩ := exists_ok_of_any rest
  obtain ⟨times, rest⟩ := Bool.and_eq_true_iff.1 rest
  obtain ⟨now, last, two⟩ := of_decide_eq_true times
  obtain ⟨⟨after, summary⟩, refreshed, -⟩ := exists_ok_of_any rest
  have reachable : Reachable c e := (Reachable.new ∅).performAll ran
  obtain ⟨⟨log, recorded⟩, all⟩ := sampled_once_per_data_time reachable
  obtain ⟨-, -, -, next⟩ := all log recorded
  have sampledAt : log.getLast?.map (·.ts) = some 60000 := recorded.account.sampledAt.symm.trans last
  have news : e.IsNews log 90000 := by
    refine ⟨dataTime?_eq_some_iff.1 now, fun r newest => ?_⟩
    rw [newest] at sampledAt
    have recent : r.ts = 60000 := Option.some.inj sampledAt
    omega
  obtain ⟨count, takes⟩ := (next _ _ _ refreshed).1 90000 news
  exact ⟨c, e, log, after, summary, loaded, ran, reachable, recorded, sampledAt, refreshed,
    count.trans two, takes⟩

end Engine

end FxPulse
