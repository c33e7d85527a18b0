import ActorLogic.Proofs.Channel.Table
/-!
# What a call can do

A send and a receive that do not stop the run, case by case. Whatever is shown of turns rests on
these two lemmas alone.
-/

namespace ActorLogic.Turn

open Result

variable {P σ : Type} {t u : Turn P} {m : Message P} {key : ChannelKey}

/-- A send queues the message at its target with the tick of the turn, or counts a refusal. -/
theorem send_cases {answer : Except (SendError P) Unit} (h : t.send m = .ok (answer, u)) :
    ∃ n c, t.channels.find? m.target = some n ∧ t.channels.channels[n]? = some c ∧
      (c.canSend = true ∧ answer = .ok () ∧
          u = { t with channels := t.channels.set n { c with buffer := c.buffer.push ⟨m, t.time⟩ } } ∨
        c.canSend = false ∧ answer = .error ⟨m, c.capacity⟩ ∧
          u = { t with refused := t.refused + 1 }) := by
  obtain ⟨n, hn, hrest⟩ := bind_eq_ok.1 h
  obtain ⟨c, hc, hend⟩ := bind_eq_ok.1 hrest
  refine ⟨n, c, ChannelTable.resolve_address.1 hn, ChannelTable.atId_eq_ok.1 hc, ?_⟩
  cases hroom : c.canSend with
  | true =>
    rw [Channel.enqueue_of_room hroom] at hend
    cases hend
    exact .inl ⟨rfl, rfl, rfl⟩
  | false =>
    rw [Channel.enqueue_of_full hroom] at hend
    cases hend
    exact .inr ⟨rfl, rfl, rfl⟩

/-- A receive takes the front of a channel of the actor's own and delivers it, if nothing was
delivered before, or finds the channel empty. -/
theorem receive_cases {answer : Option (Message P)} (h : t.receive key = .ok (answer, u)) :
    ∃ n c, t.channels.resolve key = .ok n ∧ t.channels.channels[n]? = some c ∧
      c.owner = t.actor ∧
      (c.buffer.toList = [] ∧ answer = none ∧ u = t ∨
        ∃ e d, c.receive? = some (e, d) ∧ t.delivery = none ∧ answer = some e.message ∧
          u = { t with
            channels := t.channels.set n d
            delivery := some (.delivery t.time e.message e.enqueuedAt) }) := by
  obtain ⟨n, hn, hrest⟩ := bind_eq_ok.1 h
  obtain ⟨c, hc, hend⟩ := bind_eq_ok.1 hrest
  refine ⟨n, c, hn, ChannelTable.atId_eq_ok.1 hc, ?_⟩
  split at hend
  · cases hend
  · next howner =>
    refine ⟨Decidable.not_not.1 howner, ?_⟩
    split at hend
    · cases hend
    · next hsecond =>
      cases htaken : c.receive? with
      | none =>
        rw [htaken] at hend
        cases hend
        exact .inl ⟨Channel.receive?_eq_none.1 htaken, rfl, rfl⟩
      | some taken =>
        obtain ⟨e, d⟩ := taken
        rw [htaken] at hend
        cases hend
        have hfront := (Channel.receive?_eq_some.1 htaken).1
        -- The channel is not empty, so a second delivery would have stopped the run.
        have hnothing : t.delivery = none := by
          cases hdelivery : t.delivery with
          | none => rfl
          | some event =>
            refine absurd ?_ hsecond
            simp [hdelivery, Channel.canReceive, Channel.isEmpty, ← Array.isEmpty_toList, hfront]
        exact .inr ⟨e, d, rfl, hnothing, rfl, rfl⟩

/-! ## Calls that go through -/

theorem run_send {k : Except (SendError P) Unit → Action P σ} {answer : Except (SendError P) Unit}
    (h : t.send m = .ok (answer, u)) : run (.send m k) t = run (k answer) u := by
  rw [run, h]

theorem run_receive {k : Option (Message P) → Action P σ} {answer : Option (Message P)}
    (h : t.receive key = .ok (answer, u)) : run (.receive key k) t = run (k answer) u := by
  rw [run, h]

/-- A send to a channel with room queues the message. -/
theorem send_of_room {n : Nat} {c : Channel P} (hn : t.channels.find? m.target = some n)
    (hc : t.channels.channels[n]? = some c) (hroom : c.canSend = true) :
    t.send m = .ok (.ok (), { t with
      channels := t.channels.set n { c with buffer := c.buffer.push ⟨m, t.time⟩ } }) := by
  rw [send, ChannelTable.resolve_address.2 hn, ok_bind, ChannelTable.atId_eq_ok.2 hc, ok_bind,
    Channel.enqueue_of_room hroom]

/-- The first receive from a channel of the actor's own takes the front. -/
theorem receive_of_front {n : Nat} {c d : Channel P} {e : Envelope P}
    (hn : t.channels.resolve key = .ok n) (hc : t.channels.channels[n]? = some c)
    (howner : c.owner = t.actor) (hfirst : t.delivery = none) (hfront : c.receive? = some (e, d)) :
    t.receive key = .ok (some e.message, { t with
      channels := t.channels.set n d
      delivery := some (.delivery t.time e.message e.enqueuedAt) }) := by
  rw [receive, hn, ok_bind, ChannelTable.atId_eq_ok.2 hc, ok_bind, if_neg (not_not_intro howner),
    hfirst, if_neg (by simp), hfront]

/-! ## Runs of calls -/

/-- What every call does to a turn, and what may be done again and again, the run of an action does
to it. -/
theorem run_keeps {R : Turn P → Turn P → Prop} (refl : ∀ t, R t t)
    (trans : ∀ {t u v}, R t u → R u v → R t v)
    (send : ∀ {t u m answer}, t.send m = .ok (answer, u) → R t u)
    (receive : ∀ {t u key answer}, t.receive key = .ok (answer, u) → R t u)
    {action : Action P σ} {state : σ} (h : run action t = .ok (state, u)) : R t u := by
  induction action generalizing t with
  | done s =>
    cases h
    exact refl _
  | send m k ih =>
    rw [run] at h
    cases hsend : t.send m with
    | error f => simp [hsend] at h
    | ok result =>
      rw [hsend] at h
      exact trans (send hsend) (ih result.1 h)
  | receive key k ih =>
    rw [run] at h
    cases hreceive : t.receive key with
    | error f => simp [hreceive] at h
    | ok result =>
      rw [hreceive] at h
      exact trans (receive hreceive) (ih result.1 h)
  | look k ih => exact ih t.view h
  | stop fault => cases h

/-! ## The clock and the actor -/

theorem send_time {answer : Except (SendError P) Unit} (h : t.send m = .ok (answer, u)) :
    u.time = t.time := by
  obtain ⟨n, c, -, -, hcase⟩ := send_cases h
  obtain ⟨-, -, rfl⟩ | ⟨-, -, rfl⟩ := hcase <;> rfl

theorem receive_time {answer : Option (Message P)} (h : t.receive key = .ok (answer, u)) :
    u.time = t.time := by
  obtain ⟨n, c, -, -, -, hcase⟩ := receive_cases h
  obtain ⟨-, -, rfl⟩ | ⟨e, d, -, -, -, rfl⟩ := hcase <;> rfl

/-- A turn is that of one process to its end. -/
theorem run_actor {action : Action P σ} {state : σ} (h : run action t = .ok (state, u)) :
    u.actor = t.actor := by
  refine run_keeps (R := fun t u => u.actor = t.actor) (fun _ => rfl)
    (fun htu huv => huv.trans htu) ?_ ?_ h
  · intro t u m answer hsend
    obtain ⟨n, c, -, -, hcase⟩ := send_cases hsend
    obtain ⟨-, -, rfl⟩ | ⟨-, -, rfl⟩ := hcase <;> rfl
  · intro t u key answer hreceive
    obtain ⟨n, c, -, -, -, hcase⟩ := receive_cases hreceive
    obtain ⟨-, -, rfl⟩ | ⟨e, d, -, -, -, rfl⟩ := hcase <;> rfl

end ActorLogic.Turn
