import Mathlib.Data.List.Basic
import ActorLogic.Proofs.World.Delivery
/-!
# The clock and the log

The clock only moves on. No message is from the future, and messages wait in the order of the ticks
at which they were queued. The log tells of one tick after the other, of at most one delivery in
each. So no delay is cut off, and the log gives back the tick at which a message was queued.
-/

namespace ActorLogic

variable {P σ : Type}

/-- If a message was not received before it was queued, its event gives back the tick at which it
was queued. -/
theorem Event.enqueuedAt_delivery {time stamp : Nat} (m : Message P) (h : stamp ≤ time) :
    (Event.delivery time m stamp).enqueuedAt = stamp := Nat.sub_sub_self h

/-! ## Calls -/

namespace Call

variable {call : Call P} {event : Event P}

/-- What the log should say of the call, with the address from which the message was taken. -/
def sourced? (c : Call P) : Option (Address × Event P) :=
  c.dequeued?.map fun (a, e) => (a, .delivery c.time e.message e.enqueuedAt)

theorem delivery?_eq_sourced? (call : Call P) : call.delivery? = call.sourced?.map (·.2) := by
  rw [sourced?, Option.map_map]
  rfl

theorem delivery?_eq_some (h : call.delivery? = some event) :
    ∃ a e, call.dequeued? = some (a, e) ∧ event = .delivery call.time e.message e.enqueuedAt := by
  obtain ⟨⟨a, e⟩, hdequeued, rfl⟩ := Option.map_eq_some_iff.1 h
  exact ⟨a, e, hdequeued, rfl⟩

/-- The ticks of queueing that the log gives back are those that the messages carried. -/
theorem Honest.sourced?_enqueuedAt (h : call.Honest) (a : Address) :
    (call.sourced?.filter (·.1 = a)).map (·.2.enqueuedAt) =
      (call.taken? a).map Envelope.enqueuedAt := by
  rw [sourced?, taken?]
  cases hdequeued : call.dequeued? with
  | none => rfl
  | some source =>
    obtain ⟨b, e⟩ := source
    have hback := Event.enqueuedAt_delivery e.message (h.waited b e hdequeued)
    by_cases heq : b = a
    · simpa [heq, Option.filter] using hback
    · simp [heq, Option.filter]

end Call

/-- All that calls took, in their order, with the addresses from which it was taken. -/
def sourcedLog (calls : List (Call P)) : List (Address × Event P) := calls.filterMap Call.sourced?

theorem filterMap_delivery? (calls : List (Call P)) :
    calls.filterMap Call.delivery? = (sourcedLog calls).map (·.2) := by
  rw [sourcedLog, List.map_filterMap]
  exact List.filterMap_congr fun call _ => call.delivery?_eq_sourced?

theorem sourcedLog_enqueuedAt {calls : List (Call P)} (h : ∀ call ∈ calls, call.Honest)
    (a : Address) :
    ((sourcedLog calls).filter (·.1 = a)).map (·.2.enqueuedAt) =
      (calls.filterMap (Call.taken? a)).map Envelope.enqueuedAt := by
  rw [sourcedLog, List.filter_filterMap, List.map_filterMap, List.map_filterMap]
  exact List.filterMap_congr fun call hcall => (h call hcall).sourced?_enqueuedAt a

/-! ## Queues -/

/-- Whatever went through a channel that was filled at tick zero, waited in the order of the ticks
at which it was queued. -/
theorem ChannelTable.Carries.ordered {calls : List (Call P)} {t u : ChannelTable P} {n : Nat}
    {d : Channel P} (h : Carries calls t u) (hstart : t.Stamped 0)
    (hcalls : calls.Pairwise fun c c' => c.time ≤ c'.time) (hd : u.channels[n]? = some d) :
    (calls.filterMap (Call.taken? d.address) ++ d.buffer.toList).Pairwise
      fun e e' => e.enqueuedAt ≤ e'.enqueuedAt := by
  obtain ⟨c, hc, haddress, hqueue⟩ := h.origin hd
  have hzero : ∀ e ∈ c.buffer.toList, e.enqueuedAt = 0 :=
    fun e he => Nat.le_zero.1 (hstart n c hc e he)
  have hfirst : ∀ e ∈ c.buffer.toList, ∀ e' : Envelope P, e.enqueuedAt ≤ e'.enqueuedAt :=
    fun e he e' => hzero e he ▸ Nat.zero_le _
  rw [haddress, hqueue, List.pairwise_append]
  refine ⟨List.pairwise_of_forall_mem_list fun e he e' _ => hfirst e he e', ?_,
    fun e he e' _ => hfirst e he e'⟩
  -- What is accepted carries the tick of its call.
  refine hcalls.filterMap _ fun call call' hle e he e' he' => ?_
  rw [Call.accepted?_enqueuedAt he, Call.accepted?_enqueuedAt he']
  exact hle

/-! ## Turns -/

/-- All calls of an action are honest, also if the turn is stopped after them. -/
theorem Turn.calls_honest {action : Action P σ} {t : Turn P} (ht : t.channels.Indexed)
    (hstamped : t.channels.Stamped t.time) : ∀ call ∈ calls action t, call.Honest := by
  induction action generalizing t with
  | done s => simp [calls]
  | send m k ih =>
    rw [calls]
    cases hsend : t.send m with
    | error f => simp
    | ok result =>
      obtain ⟨answer, mid⟩ := result
      have hcall := send_follows ht hsend
      exact List.forall_mem_cons.2 ⟨hcall.honest _ List.mem_cons_self,
        ih answer (hcall.carries.indexed ht) (hcall.stamped rfl hstamped)⟩
  | receive key k ih =>
    rw [calls]
    cases hreceive : t.receive key with
    | error f => simp
    | ok result =>
      obtain ⟨answer, mid⟩ := result
      have hcall := receive_follows ht hstamped hreceive
      exact List.forall_mem_cons.2 ⟨hcall.honest _ List.mem_cons_self,
        ih answer (hcall.carries.indexed ht) (hcall.stamped rfl hstamped)⟩
  | look k ih =>
    rw [calls]
    exact ih t.view ht hstamped
  | stop fault => simp [calls]

/-! ## Runs -/

namespace World

variable {start w next : World P σ} {past : List (Tick P σ)} {o : Offer P σ}

/-- The log grew by at most one delivery, with the time of the tick. -/
def LogsOne (tick : Tick P σ) : Prop :=
  ∃ event : Option (Event P), tick.after.events = tick.before.events ++ event.toArray ∧
    ∀ e ∈ event, e.time = tick.before.time

/-- Both the calls of a history and the log of its world go along with the clock, and are over. -/
structure Clocked (past : List (Tick P σ)) (w : World P σ) : Prop where
  calls : (callsOf past).Pairwise fun c c' => c.time ≤ c'.time
  elapsed : ∀ call ∈ callsOf past, call.time < w.time
  increasing : w.events.toList.Pairwise fun e e' => e.time < e'.time
  logged : ∀ e ∈ w.events.toList, e.time < w.time
  single : ∀ tick ∈ past, LogsOne tick

theorem Clocked.initially (h : w.events = #[]) : Clocked [] w where
  calls := .nil
  elapsed := by simp [callsOf]
  increasing := by simp [h]
  logged := by simp [h]
  single := by simp

/-- A step that was taken is one tick later than all before it. -/
theorem Clocked.tick (h : Clocked past w) (hfollows : Follows (callsOf past) start w)
    {generator : Generator}
    (hnext : ({ w with generator := generator } : World P σ).perform o = .ok next) :
    Clocked (past ++ [⟨w, o, next⟩]) next := by
  obtain ⟨t, hturn, -, htime, hevents, -⟩ := hfollows.turn hnext
  have hcalls : callsOf (past ++ [⟨w, o, next⟩]) =
      callsOf past ++ Turn.calls o.step.action (w.turn o) := by
    rw [callsOf, List.flatMap_append, List.flatMap_singleton]
    rfl
  have hnow : ∀ call ∈ Turn.calls o.step.action (w.turn o), call.time = w.time :=
    fun call hcall => Turn.time_of_mem_calls hcall
  have hdelivery : ∀ e ∈ t.delivery, e.time = w.time := by
    intro e he
    have hmem : e ∈ t.delivery.toList := Option.mem_toList.2 he
    rw [hturn.delivery] at hmem
    obtain ⟨call, hcall, hlogged⟩ := List.mem_filterMap.1 hmem
    obtain ⟨a, envelope, -, rfl⟩ := Call.delivery?_eq_some hlogged
    exact hnow call hcall
  have hlog : next.events.toList = w.events.toList ++ t.delivery.toList := by
    rw [hevents, Array.toList_append, Option.toList_toArray]
  exact
    { calls := by
        rw [hcalls, List.pairwise_append]
        refine ⟨h.calls, List.pairwise_of_forall_mem_list fun c hc c' hc' => ?_, ?_⟩
        · exact Nat.le_of_eq ((hnow c hc).trans (hnow c' hc').symm)
        · intro c hc c' hc'
          rw [hnow c' hc']
          exact Nat.le_of_lt (h.elapsed c hc)
      elapsed := by
        rw [hcalls, htime]
        refine List.forall_mem_append.2 ⟨fun c hc => Nat.lt_succ_of_lt (h.elapsed c hc), ?_⟩
        intro c hc
        rw [hnow c hc]
        exact Nat.lt_succ_self _
      increasing := by
        rw [hlog, List.pairwise_append]
        refine ⟨h.increasing, ?_, ?_⟩
        · cases t.delivery <;> simp
        · intro e he e' he'
          rw [hdelivery e' (Option.mem_toList.1 he')]
          exact h.logged e he
      logged := by
        rw [hlog, htime]
        refine List.forall_mem_append.2 ⟨fun e he => Nat.lt_succ_of_lt (h.logged e he), ?_⟩
        intro e he
        rw [hdelivery e (Option.mem_toList.1 he)]
        exact Nat.lt_succ_self _
      single := List.forall_mem_append.2
        ⟨h.single, List.forall_mem_singleton.2 ⟨t.delivery, hevents, hdelivery⟩⟩ }

/-- Along a run, the calls and the log go along with the clock. -/
theorem FreeRun.clocked (h : FreeRun start past w) (hevents : start.events = #[])
    (hindexed : start.channels.Indexed) (hstamped : start.channels.Stamped start.time) :
    Clocked past w := by
  induction h with
  | start => exact .initially hevents
  | tick hrun hnext ih => exact ih.tick (hrun.follows hindexed hstamped) hnext
  | watch i _ ih => exact { ih with }

/-! ## The times of a run -/

/-- What the clock, the queues and the log of a world must show after the ticks of a history. -/
structure Timely (past : List (Tick P σ)) (w : World P σ) : Prop where
  /-- The log has strictly increasing times, all of them over. -/
  increasing : w.events.toList.Pairwise fun e e' => e.time < e'.time
  logged : ∀ e ∈ w.events.toList, e.time < w.time
  /-- A tick contributes at most one event. -/
  single : ∀ tick ∈ past, LogsOne tick
  /-- No queued message is from the future, and none was queued before one that is ahead of it. -/
  queued : ∀ c ∈ w.channels.channels.toList, ∀ e ∈ c.buffer.toList, e.enqueuedAt ≤ w.time
  ordered : ∀ c ∈ w.channels.channels.toList,
    c.buffer.toList.Pairwise fun e e' => e.enqueuedAt ≤ e'.enqueuedAt
  /-- Whatever step comes next, and even if it is stopped: a message that it takes was not queued
  after that. -/
  waited : ∀ (o : Offer P σ), ∀ call ∈ Turn.calls o.step.action (w.turn o),
    ∀ a e, call.dequeued? = some (a, e) → e.enqueuedAt ≤ call.time
  /-- No delay in the log is longer than the time of its event. -/
  delayed : ∀ e ∈ w.events.toList, e.queueDelay ≤ e.time
  /-- The log tells of all that was taken, and the ticks of queueing that it gives back for one
  channel do not decrease. -/
  log : w.events.toList = (sourcedLog (callsOf past)).map (·.2)
  fifo : ∀ c ∈ w.channels.channels.toList,
    (((sourcedLog (callsOf past)).filter (·.1 = c.address)).map (·.2.enqueuedAt)).Pairwise (· ≤ ·)

/-- Every run of a world that was built from prepared channels is timely, whatever its processes
offer and whichever steps are taken. -/
theorem FreeRun.timely {s : Setup P σ} {fresh : UInt64} (hprepared : ∀ c ∈ s.channels, c.Prepared)
    (hbuild : s.build fresh = .ok start) (hrun : FreeRun start past w) : w.Timely past := by
  obtain ⟨hindexed, hchannels, hevents, -⟩ := build_ok hbuild
  -- At the start all messages carry the tick zero.
  have hzero : start.channels.Stamped 0 := by
    intro n c hc e he
    have hmem : c ∈ s.channels := hchannels ▸ Array.mem_toList_iff.2 (Array.mem_of_getElem? hc)
    exact Nat.le_of_eq ((hprepared c hmem).enqueuedAt_eq_zero e he)
  have hstamped := hzero.mono (Nat.zero_le start.time)
  have hfollows := hrun.follows hindexed hstamped
  have hclocked := hrun.clocked hevents hindexed hstamped
  have hlog : w.events.toList = (callsOf past).filterMap Call.delivery? := by
    simpa [hevents] using hfollows.events
  have hordered : ∀ c ∈ w.channels.channels.toList,
      ((callsOf past).filterMap (Call.taken? c.address) ++ c.buffer.toList).Pairwise
        fun e e' => e.enqueuedAt ≤ e'.enqueuedAt := by
    intro c hc
    obtain ⟨n, hn⟩ := Array.getElem?_of_mem (Array.mem_toList_iff.1 hc)
    exact hfollows.carries.ordered hzero hclocked.calls hn
  exact
    { increasing := hclocked.increasing
      logged := hclocked.logged
      single := hclocked.single
      queued := by
        intro c hc e he
        obtain ⟨n, hn⟩ := Array.getElem?_of_mem (Array.mem_toList_iff.1 hc)
        exact hfollows.stamped n c hn e he
      ordered := fun c hc => (List.pairwise_append.1 (hordered c hc)).2.1
      waited := fun o call hcall =>
        (Turn.calls_honest hfollows.indexed hfollows.stamped call hcall).waited
      delayed := by
        intro e he
        rw [hlog] at he
        obtain ⟨call, -, hlogged⟩ := List.mem_filterMap.1 he
        obtain ⟨a, envelope, -, rfl⟩ := Call.delivery?_eq_some hlogged
        exact Nat.sub_le _ _
      log := hlog.trans (filterMap_delivery? _)
      fifo := by
        intro c hc
        rw [sourcedLog_enqueuedAt hfollows.honest, List.pairwise_map]
        exact (List.pairwise_append.1 (hordered c hc)).1 }

/-- Take a message and send it on to the target that it names. -/
def passOn : Step Nat Unit :=
  ⟨"pass", .receive (.id 0) fun answer =>
    match answer with
    | some m => .send m fun _ => .done ()
    | none => .done ()⟩

/-- A process that sends a message on to itself, one that its channel had held behind another. -/
def relay : Setup Nat Unit where
  channels := [⟨⟨"a", "in"⟩, 2, #[⟨⟨⟨"b", "out"⟩, ⟨"a", "in"⟩, 8, none⟩, 0⟩]⟩]
  processes := [⟨"a", ()⟩]
  behaviour := fun _ _ => .ok [passOn]

theorem relay_prepared : ∀ c ∈ relay.channels, c.Prepared := by
  intro c hc
  obtain rfl := List.mem_singleton.1 hc
  let m (n : Nat) : Message Nat := ⟨⟨"b", "out"⟩, ⟨"a", "in"⟩, n, none⟩
  have hnew : (Channel.new "a" "in" 2 : Channel Nat).Prepared := .new "a" "in" 2
  have hfull := (hnew.send (m := m 7) rfl).send (m := m 8) rfl
  exact hfull.receive rfl

theorem FreeRun.timely_relay :
    ∃ (start w : World Nat Unit) (past : List (Tick Nat Unit)),
      relay.build 1 = .ok start ∧ start.FreeRun past w ∧ past.length = 2 ∧ w.Timely past := by
  have htable : ChannelTable.empty.register relay.channels =
      .ok ⟨relay.channels.toArray, (∅ : Std.HashMap Address Nat).insert ⟨"a", "in"⟩ 0⟩ := by
    simp [ChannelTable.register, ChannelTable.insert?, ChannelTable.find?, ChannelTable.empty,
      relay]
  let o : Offer Nat Unit := ⟨0, "a", passOn⟩
  obtain ⟨start, hbuild, mid, next, hfirst, hsecond⟩ :
      ∃ start, relay.build 1 = .ok start ∧ ∃ mid next,
        ({ start with generator := start.generator } : World Nat Unit).perform o = .ok mid ∧
        ({ mid with generator := mid.generator } : World Nat Unit).perform o = .ok next := by
    simp only [Setup.build, SimulationConfig.validate, htable]
    refine ⟨_, rfl, ?_⟩
    simp [o, relay, passOn, perform, Turn.run, Turn.send, Turn.receive, ChannelTable.resolve,
      ChannelTable.find?, ChannelTable.set, ChannelTable.atId, Channel.enqueue, Channel.canSend,
      Channel.length, Channel.owner, Channel.receive?, endTurn, audit, objections, view,
      Invariant.channelCapacity]
  have hrun : start.FreeRun [⟨start, o, mid⟩, ⟨mid, o, next⟩] next :=
    (FreeRun.start.tick hfirst).tick hsecond
  exact ⟨start, next, _, hbuild, hrun, rfl, FreeRun.timely relay_prepared hbuild hrun⟩

end World

end ActorLogic
