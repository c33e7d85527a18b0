import Mathlib.Algebra.BigOperators.Group.List.Basic
import Mathlib.Data.List.Perm.Basic
import ActorLogic.Proofs.Metrics.Breakdown
/-!
# Totals and the breakdown

A collector counts each event twice, in the totals and in the breakdown by address, and the two keep
together: whatever the addresses are, the entries of the breakdown make up the totals. A summary is a
matter of the events that were recorded before it, and of their order only the digest and the two
times at its ends tell anything.
-/

namespace ActorLogic

/-! ## Greatest numbers -/

/-- The greatest number of a list, and zero if there is none. -/
def greatest (l : List Nat) : Nat := l.max?.getD 0

@[simp] theorem greatest_nil : greatest [] = 0 := rfl

@[simp] theorem greatest_cons (n : Nat) (l : List Nat) : greatest (n :: l) = max n (greatest l) := by
  rw [greatest, greatest, List.max?_cons]
  cases l.max? <;> simp

theorem foldl_max_eq_greatest (l : List Nat) (n : Nat) : l.foldl max n = max n (greatest l) := by
  induction l generalizing n with
  | nil => simp
  | cons m rest ih => rw [List.foldl_cons, ih, greatest_cons, Nat.max_assoc]

/-! ## Counts together -/

namespace DelayStats

/-- The counts over the deliveries of both. -/
def merge (s t : DelayStats) : DelayStats :=
  ⟨s.deliveries + t.deliveries, s.totalDelay + t.totalDelay, max s.maxDelay t.maxDelay⟩

theorem record_merge (s t : DelayStats) (delay : Nat) :
    (s.record delay).merge t = (s.merge t).record delay := by
  simp only [record, merge, Nat.add_right_comm, Nat.max_assoc, Nat.max_comm delay]

theorem merge_record (s t : DelayStats) (delay : Nat) :
    s.merge (t.record delay) = (s.merge t).record delay := by
  simp [record, merge, Nat.add_assoc, Nat.max_assoc]

variable {P : Type}

theorem ofEvents_eq (events : List (Event P)) :
    ofEvents events =
      ⟨events.length, (events.map (·.queueDelay)).sum, greatest (events.map (·.queueDelay))⟩ := by
  simp only [ofEvents, foldl_max_eq_greatest, ← List.sum_eq_foldl, Nat.zero_max]

theorem ofEvents_perm {xs ys : List (Event P)} (h : xs.Perm ys) : ofEvents xs = ofEvents ys := by
  have hdelays := h.map (·.queueDelay)
  simp only [ofEvents, h.length_eq, hdelays.foldl_eq]

end DelayStats

namespace DelayTable

/-- The counts of all entries together. -/
def merged (table : DelayTable) : DelayStats := table.foldr (fun entry s => entry.2.merge s) {}

theorem merged_cons (entry : String × DelayStats) (table : DelayTable) :
    merged (entry :: table) = entry.2.merge table.merged := rfl

/-- Under whichever key a delay is recorded, it is counted once. -/
theorem merged_record (key : String) (delay : Nat) (table : DelayTable) :
    (record key delay table).merged = table.merged.record delay := by
  induction table with
  | nil => simp [record, merged, DelayStats.record, DelayStats.merge]
  | cons entry rest ih =>
    obtain ⟨k, s⟩ := entry
    rw [record]
    split
    · rw [merged_cons, DelayStats.record_merge]
      simp [DelayStats.merge]
    · split
      · rw [merged_cons, merged_cons, DelayStats.record_merge]
      · rw [merged_cons, merged_cons, ih, DelayStats.merge_record]

theorem merged_eq (table : DelayTable) :
    table.merged =
      ⟨(table.map (·.2.deliveries)).sum, (table.map (·.2.totalDelay)).sum,
        greatest (table.map (·.2.maxDelay))⟩ := by
  induction table with
  | nil => rfl
  | cons entry rest ih =>
    rw [merged_cons, ih]
    simp only [DelayStats.merge, List.map_cons, List.sum_cons, greatest_cons]

end DelayTable

/-! ## Collectors in use -/

variable {P : Type} [Payload P]

namespace Collector

/-- What a collector is asked for: to take the next event, or to summarise those that it took. -/
inductive Request (P : Type) where
  | record (e : Event P)
  | summary
  deriving DecidableEq, Repr

/-- The events that are recorded. -/
def Request.events (requests : List (Request P)) : List (Event P) :=
  requests.filterMap fun
    | .record e => some e
    | .summary => none

/-- The summaries that a collector gives, in their order. -/
def answers (c : Collector) : List (Request P) → List RunMetrics
  | [] => []
  | .record e :: rest => (c.record e).answers rest
  | .summary :: rest => c.summary :: c.answers rest

theorem recordAll_append (c : Collector) (xs ys : List (Event P)) :
    c.recordAll (xs ++ ys) = (c.recordAll xs).recordAll ys := List.foldl_append

theorem answers_append (c : Collector) (before after : List (Request P)) :
    c.answers (before ++ after) =
      c.answers before ++ (c.recordAll (Request.events before)).answers after := by
  induction before generalizing c with
  | nil => rfl
  | cons request rest ih =>
    cases request with
    | record e => exact ih (c.record e)
    | summary => exact congrArg (c.summary :: ·) (ih c)

theorem recordAll_concat (c : Collector) (events : List (Event P)) (e : Event P) :
    c.recordAll (events ++ [e]) = (c.recordAll events).record e := by
  rw [recordAll_append]
  rfl

end Collector

namespace RunMetrics

/-- What a summary tells of the events of a log. -/
structure SumsUp (m : RunMetrics) (events : List (Event P)) : Prop where
  deliveries : m.total.deliveries = events.length
  totalDelay : m.total.totalDelay = (events.map (·.queueDelay)).sum
  maxDelay : m.total.maxDelay = greatest (events.map (·.queueDelay))
  firstDelivery : m.firstDelivery = events.head?.map (·.time)
  lastDelivery : m.lastDelivery = events.getLast?.map (·.time)
  /-- The entries make up the totals, -/
  deliveries_eq : (m.perAddress.map (·.2.deliveries)).sum = m.total.deliveries
  totalDelay_eq : (m.perAddress.map (·.2.totalDelay)).sum = m.total.totalDelay
  maxDelay_eq : greatest (m.perAddress.map (·.2.maxDelay)) = m.total.maxDelay
  /-- there is one for each text that a receiving address is shown as, in the order of the texts, -/
  keys : (m.perAddress.map (·.1)).Pairwise (· < ·)
  mem_keys : ∀ key, key ∈ m.perAddress.map (·.1) ↔ ∃ e ∈ events, e.target.display = key
  /-- and it counts the events whose address is shown so. -/
  entry : ∀ key s, (key, s) ∈ m.perAddress →
    s = .ofEvents (events.filter (·.target.display = key))

variable {xs ys : List (Event P)}

theorem total_ofEvents (events : List (Event P)) : (ofEvents events).total = .ofEvents events := by
  induction events using List.reverseRecOn with
  | nil => rfl
  | append_singleton events e ih =>
    rw [DelayStats.ofEvents_concat, ← ih, ofEvents, Collector.recordAll_concat]
    rfl

theorem merged_perAddress (events : List (Event P)) :
    (ofEvents events).perAddress.merged = (ofEvents events).total := by
  induction events using List.reverseRecOn with
  | nil => rfl
  | append_singleton events e ih =>
    rw [perAddress_concat, DelayTable.merged_record, ih, ofEvents, ofEvents,
      Collector.recordAll_concat]
    rfl

theorem firstDelivery_ofEvents (events : List (Event P)) :
    (ofEvents events).firstDelivery = events.head?.map (·.time) := by
  induction events using List.reverseRecOn with
  | nil => rfl
  | append_singleton events e ih =>
    rw [List.head?_append, Option.map_or, ← ih, ofEvents, Collector.recordAll_concat]
    rfl

theorem lastDelivery_ofEvents (events : List (Event P)) :
    (ofEvents events).lastDelivery = events.getLast?.map (·.time) := by
  cases events using List.reverseRecOn with
  | nil => rfl
  | append_singleton events e =>
    rw [List.getLast?_concat, ofEvents, Collector.recordAll_concat]
    rfl

theorem sumsUp_ofEvents (events : List (Event P)) : (ofEvents events).SumsUp events := by
  have htotal := (total_ofEvents events).trans (DelayStats.ofEvents_eq events)
  have hmerged := (DelayTable.merged_eq _).symm.trans (merged_perAddress events)
  have hkeys : (ofEvents events).perAddress.map (·.1) = sortedTexts (events.map (·.target.display)) := by
    rw [perAddress_ofEvents, DelayTable.keys_ofKeys]
  exact
    { deliveries := congrArg DelayStats.deliveries htotal
      totalDelay := congrArg DelayStats.totalDelay htotal
      maxDelay := congrArg DelayStats.maxDelay htotal
      firstDelivery := firstDelivery_ofEvents events
      lastDelivery := lastDelivery_ofEvents events
      deliveries_eq := congrArg DelayStats.deliveries hmerged
      totalDelay_eq := congrArg DelayStats.totalDelay hmerged
      maxDelay_eq := congrArg DelayStats.maxDelay hmerged
      keys := hkeys ▸ pairwise_sortedTexts _
      mem_keys := fun key => by rw [hkeys, mem_sortedTexts, List.mem_map]
      entry := fun key s hin => by
        rw [perAddress_ofEvents] at hin
        obtain ⟨k, -, heq⟩ := List.mem_map.1 hin
        cases heq
        rfl }

theorem perAddress_perm (h : xs.Perm ys) : (ofEvents xs).perAddress = (ofEvents ys).perAddress := by
  rw [perAddress_ofEvents, perAddress_ofEvents, sortedTexts_perm (h.map _)]
  exact DelayTable.ofKeys_congr fun key _ => DelayStats.ofEvents_perm (h.filter _)

/-- For any log, recorded by one collector in two parts: the summary is that of the whole log, and a
summary that was asked for in between is that of what was recorded before, whatever follows. The
totals and the breakdown of a summary both tell of all events, and neither depends on the order in
which the events came. -/
theorem ofEvents_sumsUp (xs ys : List (Event P)) (before after : List (Collector.Request P)) :
    ((Collector.recordAll {} xs).recordAll ys).summary = ofEvents (xs ++ ys) ∧
      Collector.answers {} (before ++ .summary :: after) =
        Collector.answers {} before ++ ofEvents (Collector.Request.events before) ::
          (Collector.recordAll {} (Collector.Request.events before)).answers after ∧
      (ofEvents xs).SumsUp xs ∧
      (xs.Perm ys → (ofEvents xs).total = (ofEvents ys).total ∧
        (ofEvents xs).perAddress = (ofEvents ys).perAddress) := by
  refine ⟨?_, Collector.answers_append _ before _, sumsUp_ofEvents xs, fun h => ⟨?_, perAddress_perm h⟩⟩
  · rw [← Collector.recordAll_append]
    rfl
  · rw [total_ofEvents, total_ofEvents, DelayStats.ofEvents_perm h]

/-- Two addresses that look alike, in either order, with a summary after the first event and one at
the end. -/
theorem ofEvents_sumsUp_alike :
    let first : Event Nat := ⟨3, ⟨"src", "out"⟩, ⟨"a", "b/c"⟩, 10, none, 2⟩
    let second : Event Nat := ⟨4, ⟨"src", "out"⟩, ⟨"a/b", "c"⟩, 11, some ⟨"src", "in"⟩, 1⟩
    [first, second].Perm [second, first] ∧
      ((Collector.recordAll {} [first]).recordAll [second]).summary = ofEvents [first, second] ∧
      Collector.answers {} [.record first, .summary, .record second, .summary] =
        ofEvents [first] :: (Collector.recordAll {} [first]).answers [.record second, .summary] ∧
      (ofEvents [first, second]).SumsUp [first, second] ∧
      (ofEvents [first, second]).total = (ofEvents [second, first]).total ∧
      (ofEvents [first, second]).perAddress = (ofEvents [second, first]).perAddress := by
  intro first second
  have hswap : [first, second].Perm [second, first] := .swap second first []
  obtain ⟨hparts, -, -, -⟩ := ofEvents_sumsUp [first] [second] [] []
  obtain ⟨-, hanswers, hsums, hperm⟩ :=
    ofEvents_sumsUp [first, second] [second, first] [.record first] [.record second, .summary]
  exact ⟨hswap, hparts, hanswers, hsums, hperm hswap⟩

end RunMetrics

end ActorLogic
