import Mathlib.Algebra.BigOperators.Group.List.Basic
import ActorLogic.Proofs.Metrics.Breakdown
import ActorLogic.Proofs.World.Splitting
/-!
# Waiting in queues

A message that is in a queue when the clock moves on waits one tick more. So the lengths of all
queues, added up over the ticks of a run, are what its messages have waited: those that were
delivered have their delays in the log, and the others are still in a queue. No single step shows
this, but each keeps the balance: a message that is queued has not waited yet, and one that is
delivered takes its waiting from the queue into the log.
-/

namespace ActorLogic

open Result

variable {P σ : Type}

/-! ## Channels -/

namespace Channel

variable {c d : Channel P} {m : Message P} {e : Envelope P} {now : Nat}

/-- How long the messages of a channel have waited at a tick, all together. -/
def waited (c : Channel P) (now : Nat) : Nat := (c.buffer.toList.map fun e => now - e.enqueuedAt).sum

/-- A message that is queued has not waited yet. -/
theorem waited_push (c : Channel P) :
    ({ c with buffer := c.buffer.push ⟨m, now⟩ } : Channel P).waited now = c.waited now := by
  simp [waited]

theorem waited_receive (h : c.receive? = some (e, d)) :
    c.waited now = d.waited now + (now - e.enqueuedAt) := by
  rw [waited, (receive?_eq_some.1 h).1, List.map_cons, List.sum_cons, Nat.add_comm]
  rfl

/-- When the clock moves on, each message waits one tick more. -/
theorem waited_succ (h : ∀ e ∈ c.buffer.toList, e.enqueuedAt ≤ now) :
    c.waited (now + 1) = c.waited now + c.length := by
  have hone : ∀ e ∈ c.buffer.toList, now + 1 - e.enqueuedAt = now - e.enqueuedAt + 1 :=
    fun e he => Nat.succ_sub (h e he)
  rw [waited, List.map_congr_left hone, List.sum_map_add]
  simp [waited, length]

end Channel

/-! ## Tables -/

/-- To replace an element of a list changes a sum by what the element counts. -/
theorem sum_map_set {α : Type} {f : α → Nat} {l : List α} {n : Nat} {a b : α} (h : l[n]? = some a) :
    ((l.set n b).map f).sum + f a = (l.map f).sum + f b := by
  induction l generalizing n with
  | nil => simp at h
  | cons x l ih =>
    cases n with
    | zero =>
      obtain rfl : x = a := by simpa using h
      simp only [List.set_cons_zero, List.map_cons, List.sum_cons]
      omega
    | succ n =>
      have hrest := ih (n := n) (by simpa using h)
      simp only [List.set_cons_succ, List.map_cons, List.sum_cons]
      omega

namespace ChannelTable

variable {t : ChannelTable P} {c d : Channel P} {n now : Nat}

/-- How long the messages of all channels have waited at a tick, all together. -/
def waited (t : ChannelTable P) (now : Nat) : Nat := (t.channels.toList.map (·.waited now)).sum

theorem waited_set (hc : t.channels[n]? = some c) :
    (t.set n d).waited now + c.waited now = t.waited now + d.waited now := by
  rw [waited, set, Array.toList_setIfInBounds]
  exact sum_map_set (by rw [Array.getElem?_toList, hc])

theorem queued_eq_sum (t : ChannelTable P) : t.queued = (t.channels.toList.map (·.length)).sum := by
  rw [queued, List.sum, List.foldr_map]

theorem waited_succ (h : t.Stamped now) : t.waited (now + 1) = t.waited now + t.queued := by
  have hone : ∀ c ∈ t.channels.toList, c.waited (now + 1) = c.waited now + c.length := by
    intro c hc
    obtain ⟨n, hn⟩ := Array.getElem?_of_mem (Array.mem_toList_iff.1 hc)
    exact Channel.waited_succ (h n c hn)
  rw [waited, List.map_congr_left hone, List.sum_map_add, queued_eq_sum]
  rfl

theorem waited_zero (t : ChannelTable P) : t.waited 0 = 0 := by
  simp [waited, Channel.waited]

theorem waited_eq_zero (h : ∀ c ∈ t.channels.toList, c.buffer = #[]) : t.waited now = 0 := by
  refine List.sum_eq_zero fun n hn => ?_
  obtain ⟨c, hc, rfl⟩ := List.mem_map.1 hn
  simp [Channel.waited, h c hc]

end ChannelTable

/-! ## Turns -/

namespace Turn

variable {t u : Turn P} {m : Message P} {key : ChannelKey}

/-- How long the message that was delivered in the turn had waited. -/
def delay (t : Turn P) : Nat := (t.delivery.toList.map (·.queueDelay)).sum

/-- A turn keeps its balance: what messages have waited in queues, and what the one that was
delivered had waited. -/
def Balances (t u : Turn P) : Prop :=
  u.time = t.time ∧ u.channels.waited t.time + u.delay = t.channels.waited t.time + t.delay

theorem send_balances {answer : Except (SendError P) Unit} (h : t.send m = .ok (answer, u)) :
    Balances t u := by
  obtain ⟨n, c, -, hc, hcase⟩ := send_cases h
  obtain ⟨-, -, rfl⟩ | ⟨-, -, rfl⟩ := hcase
  · let d : Channel P := { c with buffer := c.buffer.push ⟨m, t.time⟩ }
    have hset : (t.channels.set n d).waited t.time + c.waited t.time =
        t.channels.waited t.time + d.waited t.time := ChannelTable.waited_set hc
    rw [Channel.waited_push] at hset
    exact ⟨rfl, congrArg (· + t.delay) (Nat.add_right_cancel hset)⟩
  · exact ⟨rfl, rfl⟩

theorem receive_balances {answer : Option (Message P)} (h : t.receive key = .ok (answer, u)) :
    Balances t u := by
  obtain ⟨n, c, -, hc, -, hcase⟩ := receive_cases h
  obtain ⟨-, -, rfl⟩ | ⟨e, d, htaken, hnothing, -, rfl⟩ := hcase
  · exact ⟨rfl, rfl⟩
  · have hset : (t.channels.set n d).waited t.time + c.waited t.time =
        t.channels.waited t.time + d.waited t.time := ChannelTable.waited_set hc
    rw [Channel.waited_receive htaken] at hset
    refine ⟨rfl, ?_⟩
    simp only [delay, hnothing, Option.toList, List.map_cons, List.map_nil, List.sum_cons,
      List.sum_nil, Event.delivery]
    omega

theorem run_balances {action : Action P σ} {state : σ} (h : run action t = .ok (state, u)) :
    Balances t u := by
  refine run_keeps (R := Balances) (fun _ => ⟨rfl, rfl⟩) ?_ send_balances receive_balances h
  rintro t u v ⟨htime, hbalance⟩ ⟨htime', hbalance'⟩
  rw [htime] at htime' hbalance'
  exact ⟨htime', hbalance'.trans hbalance⟩

end Turn

/-! ## Runs -/

namespace World

variable {start w next : World P σ} {past : List (Tick P σ)} {o : Offer P σ}

/-- The delays that the log tells of, all together. -/
def delays (w : World P σ) : Nat := (w.events.toList.map (·.queueDelay)).sum

/-- A step that was taken moves the clock on for all messages that it leaves in queues. -/
theorem perform_balances (hindexed : w.channels.Indexed) (hstamped : w.channels.Stamped w.time)
    {generator : Generator}
    (hnext : ({ w with generator := generator } : World P σ).perform o = .ok next) :
    next.delays + next.channels.waited next.time =
      w.delays + w.channels.waited w.time + next.channels.queued := by
  obtain ⟨state, t, hrun, heq⟩ := perform_ok hnext
  have hevents : next.events = w.events ++ t.delivery.toArray := by
    rw [heq]
    rfl
  have hdelays : next.delays = w.delays + t.delay := by
    simp [delays, hevents, Turn.delay]
  have hchannels : next.channels = t.channels := by
    rw [heq]
    rfl
  have htime : next.time = w.time + 1 := (perform_time hnext).1
  have hbefore : t.channels.Stamped w.time :=
    (Turn.run_follows hindexed hstamped hrun).carries.stamped hstamped fun _ => Turn.time_of_mem_calls
  have hbalance : t.channels.waited w.time + t.delay = w.channels.waited w.time + 0 :=
    (Turn.run_balances hrun).2
  rw [hdelays, hchannels, htime, ChannelTable.waited_succ hbefore]
  omega

/-- Along a run, the clock reads one tick after the other. -/
theorem FreeRun.clock (h : FreeRun start past w) (htime : start.time = 0) :
    past.map (·.after.time) = List.range' 1 w.time := by
  induction h with
  | start => rw [htime]; rfl
  | tick _ hnext ih =>
    have hone := (perform_time hnext).1
    rw [List.map_append, ih, hone, List.range'_1_concat, Nat.add_comm 1, ← hone]
    rfl
  | watch i _ ih => exact ih

/-- Along a run, the lengths of all queues add up to what messages have waited. -/
theorem FreeRun.balances (h : FreeRun start past w) (hindexed : start.channels.Indexed)
    (hstamped : start.channels.Stamped start.time) :
    w.delays + w.channels.waited w.time =
      start.delays + start.channels.waited start.time +
        (past.map (·.after.channels.queued)).sum := by
  induction h with
  | start => rfl
  | tick hrun hnext ih =>
    have hfollows := hrun.follows hindexed hstamped
    rw [perform_balances hfollows.indexed hfollows.stamped hnext, ih, List.map_append,
      List.sum_append, Nat.add_assoc]
    rfl
  | watch i _ ih => exact ih

/-! ## The account of a run -/

/-- What the queues, the clock and the log of a world must show after the ticks of a history. -/
structure Accounts [Payload P] (past : List (Tick P σ)) (w : World P σ) : Prop where
  /-- After the ticks of the history the clock read one, two and so on, up to what it reads now. -/
  clock : past.map (·.after.time) = List.range' 1 w.time
  /-- No queued message is from the future, so that its waiting is a difference of two ticks. -/
  stamped : ∀ c ∈ w.channels.channels.toList, ∀ e ∈ c.buffer.toList, e.enqueuedAt ≤ w.time
  /-- The lengths of all queues, at all these times, are what the messages of the log had waited and
  what those that are still queued have waited. -/
  balance : (past.map (·.after.channels.queued)).sum = w.delays + w.channels.waited w.time
  /-- The summary of the log divides the delays among addresses. -/
  summary : (RunMetrics.ofEvents w.events.toList).perAddress.total = w.delays
  /-- If nothing is queued any more, the summary tells of all the waiting. -/
  drained : (∀ c ∈ w.channels.channels.toList, c.buffer = #[]) →
    (RunMetrics.ofEvents w.events.toList).perAddress.total =
      (past.map (·.after.channels.queued)).sum

/-- Every run of a world that was built from prepared channels accounts for the waiting of its
messages, whatever its processes do and whichever steps are taken. -/
theorem FreeRun.accounts [Payload P] {s : Setup P σ} {fresh : UInt64}
    (hprepared : ∀ c ∈ s.channels, c.Prepared) (hbuild : s.build fresh = .ok start)
    (hrun : FreeRun start past w) : w.Accounts past := by
  obtain ⟨hindexed, -, hevents, -⟩ := build_ok hbuild
  have hzero : start.time = 0 := time_of_build hbuild
  have hstamped : start.channels.Stamped start.time := by
    rw [hzero]
    exact stamped_of_build hprepared hbuild
  have hstart : start.delays = 0 := by simp [delays, hevents]
  -- At tick zero nothing has waited, as differences are cut off there.
  have hunwaited : start.channels.waited start.time = 0 := by
    rw [hzero]
    exact ChannelTable.waited_zero _
  have hbalance := hrun.balances hindexed hstamped
  rw [hstart, hunwaited, Nat.zero_add] at hbalance
  have hsummary : (RunMetrics.ofEvents w.events.toList).perAddress.total = w.delays :=
    RunMetrics.total_perAddress _
  exact
    { clock := hrun.clock hzero
      stamped := by
        intro c hc e he
        obtain ⟨n, hn⟩ := Array.getElem?_of_mem (Array.mem_toList_iff.1 hc)
        exact (hrun.follows hindexed hstamped).stamped n c hn e he
      balance := hbalance.symm
      summary := hsummary
      drained := by
        intro hempty
        rw [hsummary, ← hbalance, ChannelTable.waited_eq_zero hempty, Nat.add_zero] }

/-- A process that only takes its messages, with two of them in its channel. -/
def drain : Setup Nat Unit where
  channels :=
    let m (n : Nat) : Message Nat := ⟨⟨"b", "out"⟩, ⟨"a", "in"⟩, n, none⟩
    [⟨⟨"a", "in"⟩, 2, #[⟨m 7, 0⟩, ⟨m 8, 0⟩]⟩]
  processes := [⟨"a", ()⟩]
  behaviour := fun _ _ => .ok [⟨"take", .receive (.id 0) fun _ => .done ()⟩]

theorem drain_prepared : ∀ c ∈ drain.channels, c.Prepared := by
  intro c hc
  obtain rfl := List.mem_singleton.1 hc
  have hnew : (Channel.new "a" "in" 2 : Channel Nat).Prepared := .new "a" "in" 2
  exact (hnew.send (m := ⟨⟨"b", "out"⟩, ⟨"a", "in"⟩, 7, none⟩) rfl).send rfl

/-- The second message waits for one tick, in which one message is queued. -/
theorem FreeRun.accounts_drain :
    ∃ (start w : World Nat Unit) (past : List (Tick Nat Unit)),
      drain.build 1 = .ok start ∧ start.FreeRun past w ∧
        past.map (·.after.channels.queued) = [1, 0] ∧ w.Accounts past := by
  have htable : ChannelTable.empty.register drain.channels =
      .ok ⟨drain.channels.toArray, (∅ : Std.HashMap Address Nat).insert ⟨"a", "in"⟩ 0⟩ := by
    simp [ChannelTable.register, ChannelTable.insert?, ChannelTable.find?, ChannelTable.empty,
      drain]
  let o : Offer Nat Unit := ⟨0, "a", ⟨"take", .receive (.id 0) fun _ => .done ()⟩⟩
  obtain ⟨start, hbuild, mid, next, hfirst, hsecond, hone, hnone⟩ :
      ∃ start, drain.build 1 = .ok start ∧ ∃ mid next,
        ({ start with generator := start.generator } : World Nat Unit).perform o = .ok mid ∧
        ({ mid with generator := mid.generator } : World Nat Unit).perform o = .ok next ∧
        mid.channels.queued = 1 ∧ next.channels.queued = 0 := by
    simp only [Setup.build, SimulationConfig.validate, htable]
    refine ⟨_, rfl, ?_⟩
    simp [o, drain, perform, Turn.run, Turn.receive, ChannelTable.resolve, ChannelTable.set,
      ChannelTable.atId, ChannelTable.queued, Channel.canReceive, Channel.isEmpty, Channel.length,
      Channel.owner, Channel.receive?, endTurn, audit, objections, view, Invariant.channelCapacity]
  have hrun : start.FreeRun [⟨start, o, mid⟩, ⟨mid, o, next⟩] next :=
    (FreeRun.start.tick hfirst).tick hsecond
  exact ⟨start, next, _, hbuild, hrun, by simp [hone, hnone],
    FreeRun.accounts drain_prepared hbuild hrun⟩

end World

end ActorLogic
