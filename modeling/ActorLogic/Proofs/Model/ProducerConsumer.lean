import ActorLogic.Model.ProducerConsumer
import ActorLogic.Proofs.Memory
import ActorLogic.Proofs.World.Delivery
import ActorLogic.Proofs.World.Progress
import Mathlib.Data.List.Basic
/-!
# Producer and consumer

All that can vary in the world of the producer and the consumer are two numbers: how many messages
have arrived, and how many are waiting. The one step turns a message that is not sent yet into one
that waits, the other one that waits into one that has arrived, and one of them is offered as long as
some message has not arrived. So all runs end alike, whichever steps are taken, and none gets stuck
before.
-/

namespace ActorLogic

/-- The message that an event tells of. -/
def Event.message {P : Type} (e : Event P) : Message P := ⟨e.sender, e.target, e.payload, e.replyTo⟩

namespace ProducerConsumer

open Result

/-- The message with a number. -/
def numbered (n : Nat) : Message Nat := ⟨⟨Producer.actor, "out"⟩, inbox, n, none⟩

/-- The producer when it has sent so many numbers. -/
def producer (limit sent : Nat) : Producer := ⟨inbox, limit, sent⟩

/-- The consumer when so many numbers have arrived. -/
def consumer (arrived : Nat) : Consumer := ⟨inbox, (List.range arrived).reverse⟩

/-! ## Where a world can stand -/

/-- The world in which so many numbers have arrived and so many are waiting. The clock has counted
each number that waits once and each one that has arrived twice. -/
structure Stands (limit capacity : Nat) (w : World Nat Party) (arrived waiting : Nat) : Prop where
  behaviour : w.behaviour = Party.behaviour
  processes : w.processes =
    #[⟨Producer.actor, .producer (producer limit (arrived + waiting))⟩,
      ⟨Consumer.actor, .consumer (consumer arrived)⟩]
  found : w.channels.find? inbox = some 0
  channel : ∃ buffer : Array (Envelope Nat),
    w.channels.channels = #[⟨inbox, max 1 capacity, buffer⟩] ∧
      buffer.toList.map (·.message) = (List.range' arrived waiting).map numbered
  log : w.events.toList.map Event.message = (List.range arrived).map numbered
  sent_le : arrived + waiting ≤ limit
  waiting_le : waiting ≤ max 1 capacity
  time : w.time = arrived + (arrived + waiting)
  refused : w.refusedSends = 0

/-- The step that the producer may offer. -/
def produceOffer (limit sent : Nat) : Offer Nat Party :=
  ⟨0, Producer.actor, (producer limit sent).produce⟩

/-- The step that the consumer may offer. -/
def consumeOffer (arrived : Nat) : Offer Nat Party :=
  ⟨1, Consumer.actor, (consumer arrived).consume⟩

/-- What is offered when so many numbers have arrived and so many are waiting: the producer needs a
number to send and room for it, the consumer needs one that waits. -/
def offered (limit capacity arrived waiting : Nat) : List (Offer Nat Party) :=
  (if arrived + waiting < limit ∧ waiting < max 1 capacity then
      [produceOffer limit (arrived + waiting)] else []) ++
    if 0 < waiting then [consumeOffer arrived] else []

/-- Where a step leads: a number more waits, or one that waited has arrived. -/
def Moves (label : String) (arrived waiting arrived' waiting' : Nat) : Prop :=
  label = "produce" ∧ arrived' = arrived ∧ waiting' = waiting + 1 ∨
    label = "consume" ∧ arrived' = arrived + 1 ∧ waiting = waiting' + 1

section Offered

variable {limit capacity arrived waiting : Nat} {o : Offer Nat Party}

theorem mem_offered :
    o ∈ offered limit capacity arrived waiting ↔
      (arrived + waiting < limit ∧ waiting < max 1 capacity ∧
          o = produceOffer limit (arrived + waiting)) ∨
        0 < waiting ∧ o = consumeOffer arrived := by
  simp only [offered, List.mem_append, List.mem_ite_nil_right, List.mem_singleton, and_assoc]

/-- With room for at least one number, nothing is offered only at the end. -/
theorem offered_eq_nil (hsent : arrived + waiting ≤ limit) :
    offered limit capacity arrived waiting = [] ↔ arrived = limit := by
  rw [offered, List.append_eq_nil_iff]
  split <;> split <;> simp <;> omega

end Offered

namespace Stands

variable {limit capacity arrived waiting : Nat} {w next : World Nat Party} {o : Offer Nat Party}

/-- The channel holds the waiting numbers in order, within its capacity. -/
theorem inbox_eq (h : Stands limit capacity w arrived waiting) :
    ∃ c, w.channels.channels = #[c] ∧ c.address = inbox ∧ c.capacity = max 1 capacity ∧
      c.length = waiting ∧
      c.buffer.toList.map (·.message) = (List.range' arrived waiting).map numbered := by
  obtain ⟨buffer, hchannels, hbuffer⟩ := h.channel
  refine ⟨_, hchannels, rfl, rfl, ?_, hbuffer⟩
  simpa [Channel.length] using congrArg List.length hbuffer

theorem get_inbox (h : Stands limit capacity w arrived waiting) {c : Channel Nat}
    (hc : w.channels.channels = #[c]) : w.channels.get (.address inbox) = .ok c :=
  ChannelTable.get_eq_ok.2 ⟨0, ChannelTable.resolve_address.2 h.found, by rw [hc]; rfl⟩

theorem sent_eq (h : Stands limit capacity w arrived waiting) : sent w = arrived + waiting := by
  simp [sent, World.process?, h.processes, producer]

theorem received_eq (h : Stands limit capacity w arrived waiting) :
    received w = List.range arrived := by
  simp [received, World.process?, h.processes, Producer.actor, Consumer.actor, Consumer.received,
    consumer]

theorem producer_offers (h : Stands limit capacity w arrived waiting) :
    (producer limit (arrived + waiting)).offers w.view =
      .ok (if arrived + waiting < limit ∧ waiting < max 1 capacity then
        [(producer limit (arrived + waiting)).produce] else []) := by
  obtain ⟨c, hc, -, hcapacity, hlength, -⟩ := h.inbox_eq
  have hroom : w.view.canSend (.address inbox) = .ok (decide (waiting < max 1 capacity)) := by
    rw [WorldView.canSend, WorldView.channel, World.view, h.get_inbox hc, ok_map, Channel.canSend,
      hcapacity, hlength]
  simp only [Producer.offers, producer, hroom, ok_map, decide_eq_true_eq]
  split
  · next hdone => rw [if_neg fun hleft => Nat.not_lt.2 hdone hleft.1]
  · next hleft => simp only [Nat.not_le.1 hleft, true_and]

theorem consumer_offers (h : Stands limit capacity w arrived waiting) :
    (consumer arrived).offers w.view =
      .ok (if 0 < waiting then [(consumer arrived).consume] else []) := by
  obtain ⟨c, hc, -, -, hlength, -⟩ := h.inbox_eq
  have hwaits : w.view.canReceive (.address inbox) = .ok (decide (0 < waiting)) := by
    rw [WorldView.canReceive, WorldView.channel, World.view, h.get_inbox hc, ok_map, ← hlength,
      Channel.canReceive_eq]
  rw [Consumer.offers, consumer, hwaits, ok_map]
  simp only [decide_eq_true_eq]

/-- What is offered is a matter of the two numbers. -/
theorem offers_eq (h : Stands limit capacity w arrived waiting) :
    w.offers = .ok (offered limit capacity arrived waiting) := by
  have hproducer := h.producer_offers
  have hconsumer := h.consumer_offers
  rw [World.offers, h.processes]
  simp only [List.zipIdx_cons, List.zipIdx_nil, List.mapM_cons, List.mapM_nil, World.offersOf,
    h.behaviour, Party.behaviour, hproducer, hconsumer, ok_map, ok_bind]
  rw [offered]
  split <;> split <;> rfl

/-! ## Taking a step -/

/-- To produce is to send the next number, which then waits. -/
theorem produce (h : Stands limit capacity w arrived waiting) (hleft : arrived + waiting < limit)
    (hroom : waiting < max 1 capacity) :
    let o := produceOffer limit (arrived + waiting)
    ∃ state t, Turn.run o.step.action (w.turn o) = .ok (state, t) ∧
      Stands limit capacity (w.endTurn o.place o.step.label state t) arrived (waiting + 1) := by
  intro o
  obtain ⟨buffer, hchannels, hbuffer⟩ := h.channel
  have hlength : buffer.size = waiting := by simpa using congrArg List.length hbuffer
  have hplace : w.channels.channels[0]? = some ⟨inbox, max 1 capacity, buffer⟩ := by
    rw [hchannels]
    rfl
  have hsend := Turn.send_of_room (t := w.turn o) (m := numbered (arrived + waiting)) h.found hplace
    (by simpa [Channel.canSend, Channel.length, hlength] using hroom)
  refine ⟨_, _, (Turn.run_send hsend).trans rfl, ?_⟩
  exact
    { behaviour := h.behaviour
      processes := by
        simp only [World.endTurn, h.processes]
        rfl
      found := h.found
      channel := by
        refine ⟨buffer.push ⟨numbered (arrived + waiting), w.time⟩, ?_, ?_⟩
        · simp only [World.endTurn, World.turn, ChannelTable.set, hchannels]
          rfl
        · rw [Array.toList_push, List.map_append, hbuffer, List.range'_concat, List.map_append]
          simp
      log := by simpa [World.endTurn, World.turn] using h.log
      sent_le := hleft
      waiting_le := hroom
      time := by
        simp only [World.endTurn, h.time]
        omega
      refused := by simp [World.endTurn, World.turn, h.refused] }

/-- To consume is to receive the number that has waited for longest. -/
theorem consume (h : Stands limit capacity w arrived (waiting + 1)) :
    let o := consumeOffer arrived
    ∃ state t, Turn.run o.step.action (w.turn o) = .ok (state, t) ∧
      Stands limit capacity (w.endTurn o.place o.step.label state t) (arrived + 1) waiting := by
  intro o
  obtain ⟨buffer, hchannels, hbuffer⟩ := h.channel
  obtain ⟨queue⟩ := buffer
  cases queue with
  | nil => simp at hbuffer
  | cons e rest =>
    rw [List.range'_succ] at hbuffer
    simp only [List.map_cons, List.cons.injEq] at hbuffer
    obtain ⟨hfront, hrest⟩ := hbuffer
    have hplace : w.channels.channels[0]? = some ⟨inbox, max 1 capacity, (e :: rest).toArray⟩ := by
      rw [hchannels]
      rfl
    have hasked : (w.turn o).channels.resolve (.address inbox) = .ok 0 :=
      ChannelTable.resolve_address.2 h.found
    have hreceive := Turn.receive_of_front hasked
      (d := ⟨inbox, max 1 capacity, rest.toArray⟩) (e := e) hplace rfl rfl
      (Channel.receive?_eq_some.2 ⟨rfl, rfl, rfl⟩)
    refine ⟨_, _, (Turn.run_receive hreceive).trans rfl, ?_⟩
    exact
      { behaviour := h.behaviour
        processes := by
          have hsent : arrived + 1 + waiting = arrived + (waiting + 1) := by omega
          have htaken : consumer (arrived + 1) =
              ⟨inbox, arrived :: (List.range arrived).reverse⟩ := by
            simp [consumer, List.range_succ]
          simp only [World.endTurn, h.processes, hfront, hsent, htaken]
          rfl
        found := h.found
        channel := by
          refine ⟨rest.toArray, ?_, hrest⟩
          simp only [World.endTurn, World.turn, ChannelTable.set, hchannels]
          rfl
        log := by
          have hevent : (Event.delivery w.time e.message e.enqueuedAt).message = numbered arrived :=
            hfront
          simp [World.endTurn, World.turn, h.log, hevent, List.range_succ]
        sent_le := by have := h.sent_le; omega
        waiting_le := by have := h.waiting_le; omega
        time := by
          simp only [World.endTurn, h.time]
          omega
        refused := by simp [World.endTurn, World.turn, h.refused] }

/-- A taken step brings the world to stand where the step leads. -/
theorem turn (h : Stands limit capacity w arrived waiting)
    (ho : o ∈ offered limit capacity arrived waiting) :
    ∃ state t arrived' waiting', Turn.run o.step.action (w.turn o) = .ok (state, t) ∧
      Stands limit capacity (w.endTurn o.place o.step.label state t) arrived' waiting' ∧
      Moves o.step.label arrived waiting arrived' waiting' := by
  obtain ⟨hleft, hroom, rfl⟩ | ⟨hwaits, rfl⟩ := mem_offered.1 ho
  · obtain ⟨state, t, hrun, hstands⟩ := h.produce hleft hroom
    exact ⟨state, t, _, _, hrun, hstands, .inl ⟨rfl, rfl, rfl⟩⟩
  · obtain ⟨waiting, rfl⟩ := Nat.exists_eq_succ_of_ne_zero (Nat.ne_of_gt hwaits)
    obtain ⟨state, t, hrun, hstands⟩ := h.consume
    exact ⟨state, t, _, _, hrun, hstands, .inr ⟨rfl, rfl, rfl⟩⟩

/-- Whatever is watched, a step that was taken led where it leads. -/
theorem step (h : Stands limit capacity w arrived waiting)
    (ho : o ∈ offered limit capacity arrived waiting) {generator : Generator}
    (hnext : ({ w with generator := generator } : World Nat Party).perform o = .ok next) :
    next.invariants = w.invariants ∧ ∃ arrived' waiting',
      Stands limit capacity next arrived' waiting' ∧
        Moves o.step.label arrived waiting arrived' waiting' := by
  obtain ⟨state, t, arrived', waiting', hrun, hstands, hmoves⟩ := h.turn ho
  obtain ⟨state', t', hrun', heq⟩ := World.perform_ok hnext
  cases hrun.symm.trans hrun'
  rw [heq]
  exact ⟨rfl, arrived', waiting', { hstands with }, hmoves⟩

/-- With the default invariant alone, every offered step can be taken and nothing is recorded. -/
theorem perform_ok (h : Stands limit capacity w arrived waiting)
    (hdefault : w.invariants = #[Invariant.channelCapacity Nat])
    (ho : o ∈ offered limit capacity arrived waiting) (generator : Generator) :
    ∃ next, ({ w with generator := generator } : World Nat Party).perform o = .ok next ∧
      next.violations = w.violations := by
  obtain ⟨state, t, arrived', waiting', hrun, hstands, -⟩ := h.turn ho
  obtain ⟨c, hc, -, hcapacity, hlength, -⟩ := hstands.inbox_eq
  have hquiet : World.objections (w.endTurn o.place o.step.label state t).view
      w.invariants.toList = .ok [] := by
    rw [hdefault]
    refine World.objections_channelCapacity fun d hd => ?_
    rw [World.view, hc, List.mem_singleton] at hd
    rw [hd, hlength, hcapacity]
    exact hstands.waiting_le
  refine ⟨({ w with generator := generator } : World Nat Party).endTurn o.place o.step.label state t,
    ?_, rfl⟩
  rw [World.perform]
  change Turn.run o.step.action (w.turn o) >>= _ = _
  rw [hrun, ok_bind]
  exact World.audit_of_quiet hquiet

end Stands

/-! ## Runs -/

variable {config : SimulationConfig} {limit capacity : Nat} {start w : World Nat Party}
  {past : List (Tick Nat Party)}

/-- Where there is room for the inbox, it is this setup that a world is built from. -/
theorem allocate_eq_ok {s : Setup Nat Party} :
    allocate config limit capacity = .ok s ↔
      max 1 capacity * Envelope.bytes Nat < 1 <<< 63 ∧ s = setup config limit capacity :=
  Memory.map_reserve_eq_ok

/-- The world is built unless no steps are allowed, and then nothing has happened in it. -/
theorem build_stands (hsteps : config.maxSteps ≠ 0) (limit capacity : Nat) (fresh : UInt64) :
    ∃ start, (setup config limit capacity).build fresh = .ok start ∧
      Stands limit capacity start 0 0 ∧ start.invariants = #[Invariant.channelCapacity Nat] ∧
      start.violations = #[] := by
  have htable : ChannelTable.empty.register (setup config limit capacity).channels =
      .ok ⟨#[.new Consumer.actor "inbox" capacity],
        (∅ : Std.HashMap Address Nat).insert inbox 0⟩ := by
    simp [ChannelTable.register, ChannelTable.insert?, ChannelTable.find?, ChannelTable.empty,
      setup, Channel.new, inbox]
  refine ⟨_, Setup.build_of_table hsteps htable rfl fresh, ?_, rfl, rfl⟩
  exact
    { behaviour := rfl
      processes := rfl
      found := by simp [ChannelTable.find?]
      channel := ⟨#[], rfl, rfl⟩
      log := rfl
      sent_le := Nat.zero_le _
      waiting_le := Nat.zero_le _
      time := rfl
      refused := rfl }

/-- With the default invariant alone, the steps that are left are counted down. -/
def Left (limit capacity n : Nat) (w : World Nat Party) : Prop :=
  w.invariants = #[Invariant.channelCapacity Nat] ∧ ∃ arrived waiting,
    Stands limit capacity w arrived waiting ∧ n + (arrived + (arrived + waiting)) = 2 * limit

theorem countdown (limit capacity : Nat) : World.Countdown (Left limit capacity) where
  offers := by
    rintro n w ⟨-, arrived, waiting, hstands, hcount⟩
    refine ⟨_, hstands.offers_eq, ?_⟩
    rw [offered_eq_nil hstands.sent_le]
    have := hstands.sent_le
    omega
  perform := by
    rintro n w offers o generator ⟨hdefault, arrived, waiting, hstands, hcount⟩ hoffers ho
    cases hoffers.symm.trans hstands.offers_eq
    obtain ⟨next, hnext, -⟩ := hstands.perform_ok hdefault ho generator
    obtain ⟨hinvariants, arrived', waiting', hstands', hmoves⟩ := hstands.step ho hnext
    refine ⟨next, hnext, hinvariants.trans hdefault, arrived', waiting', hstands', ?_⟩
    obtain ⟨-, rfl, rfl⟩ | ⟨-, rfl, rfl⟩ := hmoves <;> omega

/-- The invariants are the default one and those that were added. While none was added, nothing was
recorded. -/
def Unblamed (w : World Nat Party) : Prop :=
  ∃ added, w.invariants.toList = Invariant.channelCapacity Nat :: added ∧
    (added = [] → w.violations = #[])

/-- Along a run, the two numbers count the steps. -/
theorem run_stands (hstart : Stands limit capacity start 0 0) (hunblamed : Unblamed start)
    (hrun : start.Run past w) :
    Unblamed w ∧ ∃ arrived waiting, Stands limit capacity w arrived waiting ∧
      past.length = arrived + (arrived + waiting) := by
  induction hrun with
  | start => exact ⟨hunblamed, 0, 0, hstart, rfl⟩
  | @tick past w next offers o generator _ hoffers ho hnext ih =>
    obtain ⟨⟨added, hadded, hclean⟩, arrived, waiting, hstands, hlength⟩ := ih
    cases hoffers.symm.trans hstands.offers_eq
    obtain ⟨hinvariants, arrived', waiting', hstands', hmoves⟩ := hstands.step ho hnext
    refine ⟨⟨added, hinvariants ▸ hadded, fun hnone => ?_⟩, arrived', waiting', hstands', ?_⟩
    · subst hnone
      have hdefault : w.invariants = #[Invariant.channelCapacity Nat] := Array.toList_inj.1 hadded
      obtain ⟨next', hnext', hviolations⟩ := hstands.perform_ok hdefault ho generator
      cases hnext.symm.trans hnext'
      rw [hviolations, hclean rfl]
    · rw [List.length_append, hlength, List.length_singleton]
      obtain ⟨-, rfl, rfl⟩ | ⟨-, rfl, rfl⟩ := hmoves <;> omega
  | watch i _ ih =>
    obtain ⟨⟨added, hadded, -⟩, arrived, waiting, hstands, hlength⟩ := ih
    refine ⟨⟨added ++ [i], ?_, fun hnone => by simp at hnone⟩, arrived, waiting,
      { hstands with }, hlength⟩
    simp [World.addInvariant, hadded]

/-! ## The account -/

/-- What a world must show after so many steps. -/
structure Account (limit capacity steps : Nat) (w : World Nat Party) : Prop where
  time : w.time = steps
  count : sent w + (received w).length = steps
  sent_le : sent w ≤ limit
  ascending : received w = List.range (received w).length
  /-- What was sent and has not arrived waits in the inbox, in order and within its capacity. -/
  queue : ∃ c, w.channel (.address inbox) = .ok c ∧ c.capacity = max 1 capacity ∧
    c.length ≤ c.capacity ∧ (received w).length + c.length = sent w ∧
    c.buffer.toList.map (·.message) = (List.range' (received w).length c.length).map numbered
  /-- There is one event for each number that has arrived, in order. -/
  log : w.events.toList.map Event.message = (List.range (received w).length).map numbered
  refused : w.refusedSends = 0
  /-- Nothing is offered when all numbers have arrived, and not before. -/
  quiescent : w.isQuiescent = .ok (decide (steps = 2 * limit))

theorem Stands.account {arrived waiting : Nat} (h : Stands limit capacity w arrived waiting) :
    Account limit capacity (arrived + (arrived + waiting)) w := by
  have hsent := h.sent_eq
  have hreceived := h.received_eq
  obtain ⟨c, hc, -, hcapacity, hlength, hbuffer⟩ := h.inbox_eq
  exact
    { time := h.time
      count := by rw [hsent, hreceived, List.length_range, Nat.add_comm]
      sent_le := hsent ▸ h.sent_le
      ascending := by rw [hreceived, List.length_range]
      queue := by
        rw [hsent, hreceived, List.length_range]
        exact ⟨c, h.get_inbox hc, hcapacity, hlength ▸ hcapacity ▸ h.waiting_le,
          by rw [hlength], by rw [hlength, hbuffer]⟩
      log := by rw [hreceived, List.length_range, h.log]
      refused := h.refused
      quiescent := by
        rw [World.isQuiescent, h.offers_eq, ok_map]
        refine congrArg _ (Bool.eq_iff_iff.2 ?_)
        rw [List.isEmpty_iff, offered_eq_nil h.sent_le, decide_eq_true_eq]
        have := h.sent_le
        omega }

/-- Whichever steps are taken, the numbers arrive in order, each of them once: after every step all
of them are accounted for, nothing was refused, and no objection was recorded unless invariants were
added. So no run gets stuck, and a bounded one takes twice as many steps as there are numbers if it
may. -/
theorem drains (config : SimulationConfig) (limit capacity : Nat) (fresh : UInt64)
    (hsteps : config.maxSteps ≠ 0) :
    ∃ start, (setup config limit capacity).build fresh = .ok start ∧
      (∀ past w, start.Run past w → Account limit capacity past.length w ∧
        (w.invariants = start.invariants → w.violations = #[])) ∧
      ∀ n, ∃ w, start.runSteps n = .ok (⟨min n (2 * limit), decide (2 * limit ≤ n)⟩, w) := by
  obtain ⟨start, hbuild, hstands, hdefault, hclean⟩ := build_stands hsteps limit capacity fresh
  refine ⟨start, hbuild, fun past w hrun => ?_, fun n => ?_⟩
  · have hunblamed : Unblamed start := ⟨[], by rw [hdefault], fun _ => hclean⟩
    obtain ⟨⟨added, hadded, hnone⟩, arrived, waiting, hw, hlength⟩ :=
      run_stands hstands hunblamed hrun
    refine ⟨hlength ▸ hw.account, fun hsame => hnone ?_⟩
    rw [hsame, hdefault] at hadded
    exact (List.cons.inj hadded).2.symm
  · have hleft : Left limit capacity (2 * limit) start := ⟨hdefault, 0, 0, hstands, rfl⟩
    obtain ⟨w, hrun, -⟩ := (countdown limit capacity).runSteps n hleft
    exact ⟨w, hrun⟩

/-- Three numbers go through an inbox that was asked to have no room. -/
theorem drains_three :
    let config : SimulationConfig := { seed := 7, maxSteps := 4 }
    ∃ start, (setup config 3 0).build 1 = .ok start ∧
      (∀ past w, start.Run past w → Account 3 0 past.length w ∧
        (w.invariants = start.invariants → w.violations = #[])) ∧
      ∀ n, ∃ w, start.runSteps n = .ok (⟨min n (2 * 3), decide (2 * 3 ≤ n)⟩, w) :=
  drains { seed := 7, maxSteps := 4 } 3 0 1 (by decide)

end ProducerConsumer

end ActorLogic
