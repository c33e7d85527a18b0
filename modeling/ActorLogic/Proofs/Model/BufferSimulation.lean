import ActorLogic.Proofs.Model.BoundedBuffer
import ActorLogic.Proofs.Model.ProducerConsumer
/-!
# The graph stands for the world

The world of the producer and the consumer and the graph of the bounded buffer are made apart from
each other. A world in which so many messages wait is what the state named for that number stands
for: its labels say what the channel allows, and its edges are the steps that are offered, until the
producer has no number left and only its edges towards the empty buffer are.
-/

namespace ActorLogic.ProducerConsumer

open BoundedBuffer Result

/-- The state stands for the world: it is named for the number of messages in the inbox. -/
def Pictures (capacity : Nat) (w : World Nat Party) (s : StateId) : Prop :=
  ∃ c, w.channel (.address inbox) = .ok c ∧
    (graph capacity).stateId? (stateName c.length) = some s

/-- Whatever was drawn, the state stands for the world after the step. -/
def Leads (capacity : Nat) (w : World Nat Party) (o : Offer Nat Party) (t : StateId) : Prop :=
  ∀ (generator : Generator) (next : World Nat Party),
    ({ w with generator := generator } : World Nat Party).perform o = .ok next →
      Pictures capacity next t

/-- A world with its inbox and the steps that are offered, beside the state that stands for it with
its successors. -/
structure Mirrors (limit capacity : Nat) (w : World Nat Party) (c : Channel Nat) (s : StateId)
    (offers : List (Offer Nat Party)) (successors : List StateId) : Prop where
  channel : w.channel (.address inbox) = .ok c
  state : (graph capacity).stateId? (stateName c.length) = some s
  offers_eq : w.offers = .ok offers
  successors_eq : (graph capacity).successors s = .ok successors
  room : (graph capacity).hasLabel s producerReady = .ok c.canSend
  waits : (graph capacity).hasLabel s consumerReady = .ok c.canReceive
  full : (graph capacity).hasLabel s bufferFull = .ok !c.canSend
  empty : (graph capacity).hasLabel s bufferEmpty = .ok !c.canReceive
  /-- Every step goes along an edge. -/
  forth : ∀ o ∈ offers, ∃ t ∈ successors, Leads capacity w o t
  /-- While numbers are left, every edge is a step. -/
  back : sent w < limit →
    (∀ t ∈ successors, ∃ o ∈ offers, Leads capacity w o t) ∧ offers.length = successors.length
  /-- When no number is left, the steps are the edges towards the empty buffer. -/
  rest : sent w = limit →
    (∀ o ∈ offers, o.step.label = "consume" ∧ ∃ t ∈ successors, t + 1 = s ∧ Leads capacity w o t) ∧
      (∀ t ∈ successors, t + 1 = s → ∃ o ∈ offers, Leads capacity w o t) ∧
      offers.length = (successors.filter fun t => t + 1 = s).length

namespace Stands

variable {limit capacity arrived waiting : Nat} {w next : World Nat Party} {o : Offer Nat Party}

theorem waiting_le_capacity (h : Stands limit capacity w arrived waiting) (hcapacity : 1 ≤ capacity) :
    waiting ≤ capacity := Nat.max_eq_right hcapacity ▸ h.waiting_le

theorem pictures (h : Stands limit capacity w arrived waiting) (hcapacity : 1 ≤ capacity) :
    Pictures capacity w waiting := by
  obtain ⟨c, hc, -, -, hlength, -⟩ := h.inbox_eq
  refine ⟨c, h.get_inbox hc, ?_⟩
  rw [hlength]
  exact stateId?_graph (h.waiting_le_capacity hcapacity)

theorem leads_produce (h : Stands limit capacity w arrived waiting) (hcapacity : 1 ≤ capacity)
    (hleft : arrived + waiting < limit) (hroom : waiting < capacity) :
    Leads capacity w (produceOffer limit (arrived + waiting)) (waiting + 1) := by
  intro generator next hnext
  have ho : produceOffer limit (arrived + waiting) ∈ offered limit capacity arrived waiting :=
    mem_offered.2 (.inl ⟨hleft, (Nat.max_eq_right hcapacity).symm ▸ hroom, rfl⟩)
  obtain ⟨-, arrived', waiting', hstands, ⟨-, -, rfl⟩ | ⟨hlabel, -⟩⟩ := h.step ho hnext
  · exact hstands.pictures hcapacity
  · simp [produceOffer, Producer.produce] at hlabel

theorem leads_consume (h : Stands limit capacity w arrived waiting) (hcapacity : 1 ≤ capacity)
    (hwaits : 0 < waiting) : Leads capacity w (consumeOffer arrived) (waiting - 1) := by
  intro generator next hnext
  have ho : consumeOffer arrived ∈ offered limit capacity arrived waiting :=
    mem_offered.2 (.inr ⟨hwaits, rfl⟩)
  obtain ⟨-, arrived', waiting', hstands, ⟨hlabel, -⟩ | ⟨-, -, rfl⟩⟩ := h.step ho hnext
  · simp [consumeOffer, Consumer.consume] at hlabel
  · exact hstands.pictures hcapacity

/-- While numbers are left, as many steps are offered as there are edges. -/
theorem length_offered (h : Stands limit capacity w arrived waiting) (hcapacity : 1 ≤ capacity)
    (hleft : arrived + waiting < limit) :
    (offered limit capacity arrived waiting).length = (targets capacity waiting).length := by
  have hle := h.waiting_le_capacity hcapacity
  simp only [offered, targets, Nat.max_eq_right hcapacity, hleft, hle, true_and, and_true,
    List.length_append]
  split <;> split <;> rfl

/-- When no number is left, as many steps are offered as there are edges towards the empty buffer. -/
theorem length_offered_of_done (h : Stands limit capacity w arrived waiting)
    (hcapacity : 1 ≤ capacity) (hdone : arrived + waiting = limit) :
    (offered limit capacity arrived waiting).length =
      ((targets capacity waiting).filter fun t => t + 1 = waiting).length := by
  have hle := h.waiting_le_capacity hcapacity
  have hnone : ¬ (arrived + waiting < limit ∧ waiting < max 1 capacity) :=
    fun hleft => Nat.ne_of_lt hleft.1 hdone
  rw [offered, if_neg hnone, List.nil_append, targets, List.filter_append]
  rcases Nat.eq_zero_or_pos waiting with rfl | hwaits
  · simp
  · have hless : waiting - 1 + 1 = waiting := Nat.sub_add_cancel hwaits
    rw [if_pos hwaits, if_pos ⟨hwaits, hle⟩]
    split <;> simp [hless, Nat.add_assoc]

theorem mirrors (h : Stands limit capacity w arrived waiting) (hcapacity : 1 ≤ capacity) :
    ∃ c, Mirrors limit capacity w c waiting (offered limit capacity arrived waiting)
      (targets capacity waiting) := by
  obtain ⟨c, hc, -, hroom, hlength, -⟩ := h.inbox_eq
  have hmax : max 1 capacity = capacity := Nat.max_eq_right hcapacity
  rw [hmax] at hroom
  have hle := h.waiting_le_capacity hcapacity
  have hsend : c.canSend = decide (waiting < capacity) := by rw [Channel.canSend, hlength, hroom]
  have hreceive : c.canReceive = decide (0 < waiting) := by rw [Channel.canReceive_eq, hlength]
  refine ⟨c, ?_⟩
  exact
    { channel := h.get_inbox hc
      state := by rw [hlength, stateId?_graph hle]
      offers_eq := h.offers_eq
      successors_eq := successors_graph hle
      room := by rw [hasLabel_producerReady hle, hsend]
      waits := by rw [hasLabel_consumerReady hle, hreceive]
      full := by rw [hasLabel_bufferFull hle, hsend]
      empty := by rw [hasLabel_bufferEmpty hle, hreceive]
      forth := by
        intro o ho
        obtain ⟨hleft, hspace, rfl⟩ | ⟨hwaits, rfl⟩ := mem_offered.1 ho
        · rw [hmax] at hspace
          exact ⟨waiting + 1, mem_targets.2 (.inr ⟨hspace, rfl⟩),
            h.leads_produce hcapacity hleft hspace⟩
        · exact ⟨waiting - 1, mem_targets.2 (.inl ⟨hwaits, hle, rfl⟩),
            h.leads_consume hcapacity hwaits⟩
      back := by
        intro hleft
        rw [h.sent_eq] at hleft
        refine ⟨fun t ht => ?_, h.length_offered hcapacity hleft⟩
        obtain ⟨hwaits, -, rfl⟩ | ⟨hspace, rfl⟩ := mem_targets.1 ht
        · exact ⟨_, mem_offered.2 (.inr ⟨hwaits, rfl⟩), h.leads_consume hcapacity hwaits⟩
        · exact ⟨_, mem_offered.2 (.inl ⟨hleft, hmax.symm ▸ hspace, rfl⟩),
            h.leads_produce hcapacity hleft hspace⟩
      rest := by
        intro hdone
        rw [h.sent_eq] at hdone
        refine ⟨fun o ho => ?_, fun t ht hless => ?_, h.length_offered_of_done hcapacity hdone⟩
        · obtain ⟨hleft, -⟩ | ⟨hwaits, rfl⟩ := mem_offered.1 ho
          · exact absurd hdone (Nat.ne_of_lt hleft)
          · exact ⟨rfl, waiting - 1, mem_targets.2 (.inl ⟨hwaits, hle, rfl⟩),
              Nat.sub_add_cancel hwaits, h.leads_consume hcapacity hwaits⟩
        · obtain ⟨hwaits, -, rfl⟩ | ⟨-, rfl⟩ := mem_targets.1 ht
          · exact ⟨_, mem_offered.2 (.inr ⟨hwaits, rfl⟩), h.leads_consume hcapacity hwaits⟩
          · exact absurd hless (Nat.ne_of_gt (Nat.lt_succ_of_lt (Nat.lt_succ_self waiting))) }

end Stands

/-- As long as the buffer has any room, every world that can be reached goes together with the state
that is named for the number of messages in its inbox. Unless invariants were added, every step that
is offered can be taken too. -/
theorem simulates (config : SimulationConfig) (limit : Nat) {capacity : Nat} (fresh : UInt64)
    (hsteps : config.maxSteps ≠ 0) (hcapacity : 1 ≤ capacity) :
    ∃ start, (setup config limit capacity).build fresh = .ok start ∧
      (∃ s ∈ (graph capacity).initial, Pictures capacity start s) ∧
      ∀ past w, start.Run past w →
        (∃ c s offers successors, Mirrors limit capacity w c s offers successors) ∧
        (w.invariants = start.invariants → ∀ offers, w.offers = .ok offers → ∀ o ∈ offers,
          ∀ generator, ∃ next,
            ({ w with generator := generator } : World Nat Party).perform o = .ok next) := by
  obtain ⟨start, hbuild, hstands, hdefault, hclean⟩ := build_stands hsteps limit capacity fresh
  have hunblamed : Unblamed start := ⟨[], by rw [hdefault], fun _ => hclean⟩
  refine ⟨start, hbuild, ⟨0, ?_, hstands.pictures hcapacity⟩, fun past w hrun => ?_⟩
  · rw [graph_eq]
    exact List.mem_singleton.2 rfl
  · obtain ⟨-, arrived, waiting, hw, -⟩ := run_stands hstands hunblamed hrun
    obtain ⟨c, hmirrors⟩ := hw.mirrors hcapacity
    refine ⟨⟨c, _, _, _, hmirrors⟩, fun hsame offers hoffers o ho generator => ?_⟩
    cases hoffers.symm.trans hw.offers_eq
    obtain ⟨next, hnext, -⟩ := hw.perform_ok (hsame.trans hdefault) ho generator
    exact ⟨next, hnext⟩

/-- Two numbers go through an inbox with room for one. -/
theorem simulates_two :
    let config : SimulationConfig := { seed := 7 }
    ∃ start, (setup config 2 1).build 1 = .ok start ∧
      (∃ s ∈ (graph 1).initial, Pictures 1 start s) ∧
      ∀ past w, start.Run past w →
        (∃ c s offers successors, Mirrors 2 1 w c s offers successors) ∧
        (w.invariants = start.invariants → ∀ offers, w.offers = .ok offers → ∀ o ∈ offers,
          ∀ generator, ∃ next,
            ({ w with generator := generator } : World Nat Party).perform o = .ok next) :=
  simulates { seed := 7 } 2 1 (by decide) (by decide)

end ActorLogic.ProducerConsumer
