import ActorLogic.Proofs.World.History
import ActorLogic.Proofs.World.Turn
/-!
# Delivery

No message is lost, doubled or overtaken. For every channel, what was taken from it and then what is
in it is what was in it at first and then what was accepted for it. The log tells of everything that
was taken, and the counter of everything that was refused. All of this is shown for one call and then
carried along: over the calls of a turn, and over the ticks of a run.
-/

namespace ActorLogic

open Result

variable {P σ : Type}

namespace Call

/-- What a call answers and leaves behind agrees with what it found. -/
structure Honest (call : Call P) : Prop where
  /-- A step is handed what was taken for it. -/
  answered : call.received? = call.dequeued?.map fun (_, e) => e.message
  /-- Nothing is taken before it was queued, so that every delay is the difference of two ticks. -/
  waited : ∀ a e, call.dequeued? = some (a, e) → e.enqueuedAt ≤ call.time
  /-- A send is refused for a full channel and for nothing else. -/
  refused : call.isRefused = call.metFull
  /-- A refused send is counted and changes nothing else. -/
  untouched : call.metFull = true →
    call.after = { call.before with refused := call.before.refused + 1 }

variable {call : Call P} {a : Address} {e : Envelope P}

theorem delivery?_of_dequeued? (h : call.dequeued? = some (a, e)) :
    call.delivery? = some (.delivery call.time e.message e.enqueuedAt) := by
  rw [delivery?, h]
  rfl

/-- What is accepted carries the tick at which it was sent. -/
theorem accepted?_enqueuedAt (h : call.accepted? a = some e) : e.enqueuedAt = call.time := by
  cases call with
  | send before m answer after =>
    cases answer with
    | error refusal => simp [accepted?] at h
    | ok u =>
      simp only [accepted?, Option.ite_none_right_eq_some, Option.some.injEq] at h
      obtain ⟨-, rfl⟩ := h
      rfl
  | receive before key answer after => simp [accepted?] at h

end Call

/-! ## Channels over a sequence of calls -/

namespace ChannelTable

variable {t u v : ChannelTable P} {calls more : List (Call P)} {c d : Channel P} {n now : Nat}

/-- Between two tables, calls moved messages through the channels in the order of queues. -/
structure Carries (calls : List (Call P)) (t u : ChannelTable P) : Prop where
  index : u.index = t.index
  size : u.channels.size = t.channels.size
  queue : ∀ (n : Nat) (c : Channel P), t.channels[n]? = some c →
    ∃ d, u.channels[n]? = some d ∧ d.address = c.address ∧ d.capacity = c.capacity ∧
      calls.filterMap (Call.taken? c.address) ++ d.buffer.toList =
        c.buffer.toList ++ calls.filterMap (Call.accepted? c.address)

/-- No message in the table is from the future. -/
def Stamped (t : ChannelTable P) (now : Nat) : Prop :=
  ∀ (n : Nat) (c : Channel P), t.channels[n]? = some c → ∀ e ∈ c.buffer.toList, e.enqueuedAt ≤ now

theorem Stamped.mono (h : t.Stamped now) {later : Nat} (hle : now ≤ later) : t.Stamped later :=
  fun n c hc e he => Nat.le_trans (h n c hc e he) hle

namespace Carries

theorem refl (t : ChannelTable P) : Carries [] t t where
  index := rfl
  size := rfl
  queue n c hc := ⟨c, hc, rfl, rfl, by simp⟩

theorem trans (h : Carries calls t u) (hmore : Carries more u v) : Carries (calls ++ more) t v where
  index := hmore.index.trans h.index
  size := hmore.size.trans h.size
  queue n c hc := by
    obtain ⟨d, hd, hda, hdc, hfirst⟩ := h.queue n c hc
    obtain ⟨e, he, hea, hec, hsecond⟩ := hmore.queue n d hd
    refine ⟨e, he, hea.trans hda, hec.trans hdc, ?_⟩
    -- The queue in the middle is the end of the one account and the start of the other.
    rw [hda] at hsecond
    rw [List.filterMap_append, List.filterMap_append, List.append_assoc, hsecond,
      ← List.append_assoc, hfirst, List.append_assoc]

/-- Every channel of the later table was there before. -/
theorem origin (h : Carries calls t u) (hd : u.channels[n]? = some d) :
    ∃ c, t.channels[n]? = some c ∧ d.address = c.address ∧
      calls.filterMap (Call.taken? c.address) ++ d.buffer.toList =
        c.buffer.toList ++ calls.filterMap (Call.accepted? c.address) := by
  have hlt := (Array.getElem?_eq_some_iff.1 hd).1
  rw [h.size] at hlt
  have hc := Array.getElem?_eq_getElem hlt
  obtain ⟨d', hd', haddress, -, hqueue⟩ := h.queue n _ hc
  cases hd.symm.trans hd'
  exact ⟨_, hc, haddress, hqueue⟩

theorem indexed (h : Carries calls t u) (ht : t.Indexed) : u.Indexed := by
  intro a n
  rw [find?, h.index, ← find?, ht a n]
  constructor
  · rintro ⟨c, hc, rfl⟩
    obtain ⟨d, hd, haddress, -⟩ := h.queue n c hc
    exact ⟨d, hd, haddress⟩
  · rintro ⟨d, hd, rfl⟩
    obtain ⟨c, hc, haddress, -⟩ := h.origin hd
    exact ⟨c, hc, haddress.symm⟩

theorem stamped (h : Carries calls t u) (ht : t.Stamped now)
    (hclock : ∀ call ∈ calls, call.time = now) : u.Stamped now := by
  intro n d hd e he
  obtain ⟨c, hc, -, hqueue⟩ := h.origin hd
  -- What is in the queue was in it before or was accepted by one of the calls.
  have hmem : e ∈ c.buffer.toList ++ calls.filterMap (Call.accepted? c.address) :=
    hqueue ▸ List.mem_append_right _ he
  cases List.mem_append.1 hmem with
  | inl hold => exact ht n c hc e hold
  | inr hnew =>
    obtain ⟨call, hcall, haccepted⟩ := List.mem_filterMap.1 hnew
    exact Nat.le_of_eq ((Call.accepted?_enqueuedAt haccepted).trans (hclock call hcall))

/-- A call that moves nothing. -/
theorem idle {call : Call P} (htaken : ∀ a, call.taken? a = none)
    (haccepted : ∀ a, call.accepted? a = none) : Carries [call] t t where
  index := rfl
  size := rfl
  queue n c hc := ⟨c, hc, rfl, rfl, by simp [htaken, haccepted]⟩

/-- A call that moves messages through the one channel that has the address. -/
theorem at_channel {call : Call P} (ht : t.Indexed) (hc : t.channels[n]? = some c)
    (haddress : d.address = c.address) (hcapacity : d.capacity = c.capacity)
    (hother : ∀ a, a ≠ c.address → call.taken? a = none ∧ call.accepted? a = none)
    (hqueue : [call].filterMap (Call.taken? c.address) ++ d.buffer.toList =
      c.buffer.toList ++ [call].filterMap (Call.accepted? c.address)) :
    Carries [call] t (t.set n d) where
  index := rfl
  size := by simp [set]
  queue k b hb := by
    have hn := (Array.getElem?_eq_some_iff.1 hc).1
    rw [channels_set t n d k hn]
    split
    · next heq =>
      subst heq
      cases hc.symm.trans hb
      exact ⟨d, rfl, haddress, hcapacity, hqueue⟩
    · next hne =>
      -- Only one channel has the address, so the others are out of the call's sight.
      obtain ⟨htaken, haccepted⟩ := hother b.address fun heq => hne (ht.unique hc hb heq.symm)
      exact ⟨b, hb, rfl, rfl, by simp [htaken, haccepted]⟩

end Carries

end ChannelTable

/-! ## Turns -/

namespace Turn

variable {t u v : Turn P} {made more : List (Call P)} {call : Call P} {m : Message P}
  {key : ChannelKey}

/-- All calls of a turn are made at the tick of the turn. -/
theorem time_of_mem_calls {action : Action P σ} (h : call ∈ calls action t) :
    call.time = t.time := by
  induction action generalizing t with
  | done s => cases h
  | send m k ih =>
    rw [calls] at h
    cases hsend : t.send m with
    | error f => simp [hsend] at h
    | ok result =>
      rw [hsend] at h
      cases List.mem_cons.1 h with
      | inl heq => exact heq ▸ rfl
      | inr hrest => exact (ih result.1 hrest).trans (send_time hsend)
  | receive key k ih =>
    rw [calls] at h
    cases hreceive : t.receive key with
    | error f => simp [hreceive] at h
    | ok result =>
      rw [hreceive] at h
      cases List.mem_cons.1 h with
      | inl heq => exact heq ▸ rfl
      | inr hrest => exact (ih result.1 hrest).trans (receive_time hreceive)
  | look k ih => exact ih t.view h
  | stop fault => cases h

/-- What calls do to a turn: they move messages through its channels, and both the delivery and the
count of refused sends agree with them. -/
structure Follows (made : List (Call P)) (t u : Turn P) : Prop where
  time : u.time = t.time
  actor : u.actor = t.actor
  carries : ChannelTable.Carries made t.channels u.channels
  refused : u.refused = t.refused + made.countP Call.metFull
  delivery : u.delivery.toList = t.delivery.toList ++ made.filterMap Call.delivery?
  honest : ∀ call ∈ made, call.Honest

namespace Follows

theorem refl (t : Turn P) : Follows [] t t where
  time := rfl
  actor := rfl
  carries := .refl _
  refused := rfl
  delivery := by simp
  honest := by simp

theorem trans (h : Follows made t u) (hmore : Follows more u v) : Follows (made ++ more) t v where
  time := hmore.time.trans h.time
  actor := hmore.actor.trans h.actor
  carries := h.carries.trans hmore.carries
  refused := by rw [hmore.refused, h.refused, List.countP_append, Nat.add_assoc]
  delivery := by
    rw [hmore.delivery, h.delivery, List.filterMap_append, List.append_assoc]
  honest := List.forall_mem_append.2 ⟨h.honest, hmore.honest⟩

theorem stamped (h : Follows [call] t u) (htime : call.time = t.time)
    (ht : t.channels.Stamped t.time) : u.channels.Stamped u.time := by
  rw [h.time]
  exact h.carries.stamped ht (by simpa using htime)

end Follows

/-- A send puts the message at the back of the queue of its target, or counts a refusal. -/
theorem send_follows (ht : t.channels.Indexed) {answer : Except (SendError P) Unit}
    (h : t.send m = .ok (answer, u)) : Follows [.send t m answer u] t u := by
  obtain ⟨n, c, hn, hc, hcase⟩ := send_cases h
  have hget : t.channels.get (.address m.target) = .ok c :=
    ChannelTable.get_eq_ok.2 ⟨n, ChannelTable.resolve_address.2 hn, hc⟩
  obtain ⟨hroom, rfl, rfl⟩ | ⟨hfull, rfl, rfl⟩ := hcase
  · -- The index leads to the channel with the address that the message names.
    obtain ⟨c', hc', haddress⟩ := (ht _ _).1 hn
    cases hc.symm.trans hc'
    exact
      { time := rfl
        actor := rfl
        carries := .at_channel ht hc rfl rfl
          (fun a ha => ⟨rfl, if_neg fun heq => ha (heq.symm.trans haddress.symm)⟩)
          (by simp [Call.taken?, Call.dequeued?, Call.accepted?, haddress])
        refused := by simp [Call.metFull, hget, hroom]
        delivery := by simp [Call.delivery?, Call.dequeued?]
        honest := List.forall_mem_singleton.2
          { answered := rfl
            waited := by simp [Call.dequeued?]
            refused := by simp [Call.isRefused, Call.metFull, hget, hroom]
            untouched := by simp [Call.metFull, hget, hroom] } }
  · exact
      { time := rfl
        actor := rfl
        carries := .idle (fun _ => rfl) fun _ => rfl
        refused := by simp [Call.metFull, hget, hfull]
        delivery := by simp [Call.delivery?, Call.dequeued?]
        honest := List.forall_mem_singleton.2
          { answered := rfl
            waited := by simp [Call.dequeued?]
            refused := by simp [Call.isRefused, Call.metFull, hget, hfull]
            untouched := fun _ => rfl } }

/-- A receive takes the front of the queue that it asks, and delivers it. -/
theorem receive_follows (ht : t.channels.Indexed) (hstamped : t.channels.Stamped t.time)
    {answer : Option (Message P)} (h : t.receive key = .ok (answer, u)) :
    Follows [.receive t key answer u] t u := by
  obtain ⟨n, c, hn, hc, -, hcase⟩ := receive_cases h
  have hget : t.channels.get key = .ok c := ChannelTable.get_eq_ok.2 ⟨n, hn, hc⟩
  have hfront : (Call.receive t key answer u).dequeued? =
      c.buffer.toList.head?.map fun e => (c.address, e) := by
    simp [Call.dequeued?, hget, List.head?_eq_getElem?]
  -- The front of the queue is all that the two outcomes differ in.
  obtain ⟨hempty, rfl, rfl⟩ | ⟨e, d, htaken, hnothing, rfl, rfl⟩ := hcase
  · have hnone : (Call.receive u key none u).dequeued? = none := by rw [hfront, hempty]; rfl
    exact
      { time := rfl
        actor := rfl
        carries := .idle (fun a => by simp [Call.taken?, hnone]) fun _ => rfl
        refused := by simp [Call.metFull]
        delivery := by simp [Call.delivery?, hnone]
        honest := List.forall_mem_singleton.2
          { answered := by simp [hnone, Call.received?]
            waited := by simp [hnone]
            refused := rfl
            untouched := by simp [Call.metFull] } }
  · obtain ⟨hqueue, haddress, hcapacity⟩ := Channel.receive?_eq_some.1 htaken
    have hsome := hfront
    rw [hqueue, List.head?_cons, Option.map_some] at hsome
    have hold : e.enqueuedAt ≤ t.time :=
      hstamped n c hc e (hqueue ▸ List.mem_cons_self)
    exact
      { time := rfl
        actor := rfl
        carries := .at_channel ht hc haddress hcapacity
          (fun a ha => ⟨by simp [Call.taken?, hsome, ha.symm], rfl⟩)
          (by simp [Call.taken?, hsome, Call.accepted?, hqueue])
        refused := by simp [Call.metFull]
        delivery := by
          rw [hnothing, List.filterMap_cons_some (Call.delivery?_of_dequeued? hsome)]
          rfl
        honest := List.forall_mem_singleton.2
          { answered := by simp [hsome, Call.received?]
            waited := by simpa [hsome, Call.time, Call.before] using hold
            refused := rfl
            untouched := by simp [Call.metFull] } }

/-- A turn that is not stopped follows from the calls of its action, one after the other. -/
theorem run_follows {action : Action P σ} {state : σ} (ht : t.channels.Indexed)
    (hstamped : t.channels.Stamped t.time) (h : run action t = .ok (state, u)) :
    Follows (calls action t) t u := by
  -- The rest of an action goes on with the turn that the call left, so the turn must be any.
  induction action generalizing t with
  | done s =>
    cases h
    exact .refl _
  | send m k ih =>
    rw [run] at h
    rw [calls]
    cases hsend : t.send m with
    | error f => simp [hsend] at h
    | ok result =>
      obtain ⟨answer, mid⟩ := result
      rw [hsend] at h
      have hcall := send_follows ht hsend
      exact hcall.trans (ih answer (hcall.carries.indexed ht) (hcall.stamped rfl hstamped) h)
  | receive key k ih =>
    rw [run] at h
    rw [calls]
    cases hreceive : t.receive key with
    | error f => simp [hreceive] at h
    | ok result =>
      obtain ⟨answer, mid⟩ := result
      rw [hreceive] at h
      have hcall := receive_follows ht hstamped hreceive
      exact hcall.trans (ih answer (hcall.carries.indexed ht) (hcall.stamped rfl hstamped) h)
  | look k ih =>
    rw [calls]
    exact ih t.view ht hstamped h
  | stop fault => cases h

end Turn

/-! ## Runs -/

namespace World

variable {start w next : World P σ} {past : List (Tick P σ)} {o : Offer P σ}

/-- The world after an audit differs in the recorded objections alone. -/
theorem audit_ok (h : w.audit = .ok next) : next = { w with violations := next.violations } := by
  unfold audit at h
  split at h
  · obtain ⟨found, -, rfl⟩ := map_eq_ok.1 h
    rfl
  · cases h
    rfl

/-- A step that was taken is a turn and then an audit. -/
theorem perform_ok (h : w.perform o = .ok next) :
    ∃ state t, Turn.run o.step.action (w.turn o) = .ok (state, t) ∧
      next = { w.endTurn o.place o.step.label state t with violations := next.violations } := by
  obtain ⟨⟨state, t⟩, hrun, hrest⟩ := bind_eq_ok.1 h
  exact ⟨state, t, hrun, audit_ok hrest⟩

/-- What calls did to a world since the start: they moved messages through its channels, and the
log and the count of refused sends agree with them. -/
structure Follows (calls : List (Call P)) (start w : World P σ) : Prop where
  indexed : w.channels.Indexed
  stamped : w.channels.Stamped w.time
  carries : ChannelTable.Carries calls start.channels w.channels
  events : w.events.toList = start.events.toList ++ calls.filterMap Call.delivery?
  refused : w.refusedSends = start.refusedSends + calls.countP Call.metFull
  honest : ∀ call ∈ calls, call.Honest

namespace Follows

variable {calls : List (Call P)}

theorem refl (hindexed : w.channels.Indexed) (hstamped : w.channels.Stamped w.time) :
    Follows [] w w where
  indexed := hindexed
  stamped := hstamped
  carries := .refl _
  events := by simp
  refused := rfl
  honest := by simp

/-- A step that was taken is a turn that follows from its calls. -/
theorem turn (h : Follows calls start w) {generator : Generator}
    (hnext : ({ w with generator := generator } : World P σ).perform o = .ok next) :
    ∃ t, Turn.Follows (Turn.calls o.step.action (w.turn o)) (w.turn o) t ∧
      next.channels = t.channels ∧ next.time = w.time + 1 ∧
      next.events = w.events ++ t.delivery.toArray ∧
      next.refusedSends = w.refusedSends + t.refused := by
  obtain ⟨state, t, hrun, heq⟩ := perform_ok hnext
  refine ⟨t, Turn.run_follows h.indexed h.stamped hrun, ?_⟩
  rw [heq]
  exact ⟨rfl, rfl, rfl, rfl⟩

/-- A step that was taken adds the calls of its turn. -/
theorem tick (h : Follows calls start w) {generator : Generator}
    (hnext : ({ w with generator := generator } : World P σ).perform o = .ok next) :
    Follows (calls ++ Turn.calls o.step.action (w.turn o)) start next := by
  obtain ⟨t, hturn, hchannels, htime, hevents, hrefused⟩ := h.turn hnext
  exact
    { indexed := hchannels ▸ hturn.carries.indexed h.indexed
      stamped := by
        rw [hchannels, htime]
        exact (hturn.carries.stamped h.stamped fun _ => Turn.time_of_mem_calls).mono (Nat.le_succ _)
      carries := hchannels ▸ h.carries.trans hturn.carries
      events := by
        -- The turn starts without a delivery, so all that it delivers is its own.
        rw [hevents, Array.toList_append, Option.toList_toArray, h.events, hturn.delivery,
          List.filterMap_append, List.append_assoc]
        rfl
      refused := by
        rw [hrefused, h.refused, hturn.refused, List.countP_append, Nat.add_assoc]
        exact congrArg _ (congrArg _ (Nat.zero_add _))
      honest := List.forall_mem_append.2 ⟨h.honest, hturn.honest⟩ }

end Follows

/-- Along a run, the world follows from the calls of the history. -/
theorem FreeRun.follows (h : FreeRun start past w) (hindexed : start.channels.Indexed)
    (hstamped : start.channels.Stamped start.time) : Follows (callsOf past) start w := by
  induction h with
  | start => exact .refl hindexed hstamped
  | @tick past w next o generator _ hnext ih =>
    rw [callsOf, List.flatMap_append, List.flatMap_singleton]
    exact ih.tick hnext
  -- A new invariant is watched from now on, and has no part in the account.
  | watch i _ ih => exact { ih with }

theorem Run.follows (h : Run start past w) (hindexed : start.channels.Indexed)
    (hstamped : start.channels.Stamped start.time) : Follows (callsOf past) start w :=
  h.free.follows hindexed hstamped

/-! ## The account of a run -/

/-- What a world built from channels must show after the ticks of a history. -/
structure Delivers (channels : List (Channel P)) (past : List (Tick P σ)) (w : World P σ) : Prop where
  /-- What was taken from a channel and then what is in it, is what it was built with and then what
  was accepted for its address. -/
  queue : ∀ (n : Nat) (c : Channel P), channels[n]? = some c →
    ∃ d, w.channels.channels[n]? = some d ∧ d.address = c.address ∧
      (callsOf past).filterMap (Call.taken? c.address) ++ d.buffer.toList =
        c.buffer.toList ++ (callsOf past).filterMap (Call.accepted? c.address)
  size : w.channels.channels.size = channels.length
  /-- What a channel was built with carries the tick zero. -/
  initial : ∀ c ∈ channels, ∀ e ∈ c.buffer.toList, e.enqueuedAt = 0
  /-- A call is made at the tick of its step. -/
  clock : ∀ tick ∈ past, ∀ call ∈ tick.calls, call.time = tick.before.time
  /-- The log tells of everything that was taken, in order. -/
  log : w.events.toList = (callsOf past).filterMap Call.delivery?
  refused : w.refusedSends = (callsOf past).countP Call.metFull
  honest : ∀ call ∈ callsOf past, call.Honest

/-- A world that was built is at its start, with what the setup tells and a table of its channels. -/
theorem eq_of_build {s : Setup P σ} {fresh : UInt64} (h : s.build fresh = .ok w) :
    ∃ table, ChannelTable.empty.register s.channels = .ok table ∧
      w =
        { seed := s.effectiveSeed fresh
          generator := .ofSeed (s.effectiveSeed fresh)
          behaviour := s.behaviour
          processes := s.processes.toArray
          channels := table
          invariants := (Invariant.channelCapacity P :: s.invariants).toArray
          checkInvariants := s.config.checkInvariants
          maxSteps := s.config.maxSteps } := by
  obtain ⟨-, -, hrest⟩ := bind_eq_ok.1 h
  obtain ⟨table, htable, hend⟩ := bind_eq_ok.1 hrest
  refine ⟨table, htable, ?_⟩
  split at hend <;> cases hend
  rfl

theorem build_ok {s : Setup P σ} {fresh : UInt64} (h : s.build fresh = .ok w) :
    w.channels.Indexed ∧ w.channels.channels.toList = s.channels ∧ w.events = #[] ∧
      w.refusedSends = 0 := by
  obtain ⟨table, htable, rfl⟩ := eq_of_build h
  obtain ⟨hindexed, hchannels⟩ := ChannelTable.register_ok ChannelTable.indexed_empty htable
  exact ⟨hindexed, by simpa [ChannelTable.empty] using hchannels, rfl, rfl⟩

theorem time_of_build {s : Setup P σ} {fresh : UInt64} (h : s.build fresh = .ok w) :
    w.time = 0 := by
  obtain ⟨table, -, rfl⟩ := eq_of_build h
  rfl

/-- At the start all messages carry the tick zero. -/
theorem stamped_of_build {s : Setup P σ} {fresh : UInt64}
    (hprepared : ∀ c ∈ s.channels, c.Prepared) (h : s.build fresh = .ok w) :
    w.channels.Stamped 0 := by
  obtain ⟨-, hchannels, -⟩ := build_ok h
  intro n c hc e he
  have hmem : c ∈ s.channels := hchannels ▸ Array.mem_toList_iff.2 (Array.mem_of_getElem? hc)
  exact Nat.le_of_eq ((hprepared c hmem).enqueuedAt_eq_zero e he)

/-- Every run of a world that was built from new channels delivers what was sent, whatever its
processes do and whichever steps are taken. -/
theorem Run.delivers {s : Setup P σ} {fresh : UInt64} (hmade : ∀ c ∈ s.channels, c.Made)
    (hbuild : s.build fresh = .ok start) (hrun : Run start past w) :
    w.Delivers s.channels past := by
  obtain ⟨hindexed, hchannels, hevents, hrefused⟩ := build_ok hbuild
  have hplace : ∀ n : Nat, start.channels.channels[n]? = s.channels[n]? := by
    intro n
    rw [← Array.getElem?_toList, hchannels]
  have hzero : ∀ c ∈ s.channels, ∀ e ∈ c.buffer.toList, e.enqueuedAt = 0 :=
    fun c hc => (hmade c hc).enqueuedAt_eq_zero
  -- At the start all messages carry the tick zero, and so does the clock.
  have hstamped : start.channels.Stamped start.time := by
    intro n c hc e he
    rw [hplace] at hc
    rw [hzero c (List.mem_of_getElem? hc) e he]
    exact Nat.zero_le _
  have hfollows := hrun.follows hindexed hstamped
  exact
    { queue := by
        intro n c hc
        obtain ⟨d, hd, haddress, -, hqueue⟩ := hfollows.carries.queue n c ((hplace n).trans hc)
        exact ⟨d, hd, haddress, hqueue⟩
      size := by rw [hfollows.carries.size, ← Array.length_toList, hchannels]
      initial := hzero
      clock := fun tick _ call hcall => Turn.time_of_mem_calls hcall
      log := by simpa [hevents] using hfollows.events
      refused := by simpa [hrefused] using hfollows.refused
      honest := hfollows.honest }

/-- A process that sends itself two messages through a channel with room for one, and takes one. -/
def loopback : Setup Nat Unit where
  channels := [.new "a" "in" 1]
  processes := [⟨"a", ()⟩]
  behaviour := fun _ _ =>
    let home : Address := ⟨"a", "in"⟩
    .ok [⟨"go", .send ⟨home, home, 7, none⟩ fun _ => .send ⟨home, home, 8, none⟩ fun _ =>
      .receive (.id 0) fun _ => .done ()⟩]

theorem Run.delivers_loopback :
    ∃ (start w : World Nat Unit) (past : List (Tick Nat Unit)),
      loopback.build 1 = .ok start ∧ start.Run past w ∧ past.length = 1 ∧
        w.Delivers loopback.channels past := by
  have hmade : ∀ c ∈ loopback.channels, c.Made := by
    intro c hc
    obtain rfl := List.mem_singleton.1 hc
    exact .new "a" "in" 1
  have htable : ChannelTable.empty.register loopback.channels =
      .ok ⟨#[.new "a" "in" 1], (∅ : Std.HashMap Address Nat).insert ⟨"a", "in"⟩ 0⟩ := by
    simp [ChannelTable.register, ChannelTable.insert?, ChannelTable.find?, ChannelTable.empty,
      loopback, Channel.new]
  obtain ⟨start, hbuild, hstart⟩ : ∃ start, loopback.build 1 = .ok start ∧
      ∃ offers o, start.offers = .ok offers ∧ o ∈ offers ∧ ∃ next,
        ({ start with generator := start.generator } : World Nat Unit).perform o = .ok next := by
    simp only [Setup.build, SimulationConfig.validate, htable]
    refine ⟨_, rfl, _, ⟨0, "a", ⟨"go", _⟩⟩, rfl, List.mem_singleton.2 rfl, ?_⟩
    simp [perform, Turn.run, Turn.send, Turn.receive, ChannelTable.resolve, ChannelTable.find?,
      ChannelTable.set, ChannelTable.atId, Channel.enqueue, Channel.canSend, Channel.new,
      Channel.length, Channel.owner, Channel.receive?]
    simp [endTurn, audit, loopback, objections, view, Invariant.channelCapacity, Channel.length]
  obtain ⟨offers, o, hoffers, ho, next, hnext⟩ := hstart
  have hrun : start.Run [⟨start, o, next⟩] next := Run.start.tick hoffers ho hnext
  exact ⟨start, next, _, hbuild, hrun, rfl, Run.delivers hmade hbuild hrun⟩

end World

end ActorLogic
