import ActorLogic.Proofs.Channel.Table
import ActorLogic.Proofs.Memory
/-!
# Channels as bounded queues

Whatever is asked of a channel, it answers as a list does to which envelopes are added at the end as
long as it is shorter than a bound, and from which they are taken at the front. So what was taken from
a channel and then what is in it is what the channel accepted, in order and with its ticks; and what a
process can see of a channel tells it how the channel will answer.
-/

namespace ActorLogic

variable {P : Type}

/-! ## Requests -/

namespace Channel

/-- What can be asked of a channel. -/
inductive Request (P : Type) where
  /-- Queue a message before the simulation starts. -/
  | send (m : Message P)
  /-- Queue a message at a tick. -/
  | enqueue (m : Message P) (now : Nat)
  /-- Take the oldest message. -/
  | receive
  deriving DecidableEq, Repr

inductive Answer (P : Type) where
  | accepted
  | refused (e : SendError P)
  | received (e : Envelope P)
  /-- There was no message. -/
  | nothing
  deriving DecidableEq, Repr

/-- The message to be queued, with its tick. -/
def Request.offered? : Request P → Option (Envelope P)
  | .send m => some ⟨m, 0⟩
  | .enqueue m now => some ⟨m, now⟩
  | .receive => none

/-- The answer to a send, and the channel after it. -/
def settle (c : Channel P) : Except (SendError P) (Channel P) → Answer P × Channel P
  | .ok next => (.accepted, next)
  | .error e => (.refused e, c)

/-- The answer to a request, and the channel after it. -/
def ask (c : Channel P) : Request P → Answer P × Channel P
  | .send m => c.settle (c.send m)
  | .enqueue m now => c.settle (c.enqueue m now)
  | .receive =>
    match c.receive? with
    | some (e, next) => (.received e, next)
    | none => (.nothing, c)

/-- The channel after requests. -/
def askAll (c : Channel P) (requests : List (Request P)) : Channel P :=
  requests.foldl (fun c request => (c.ask request).2) c

theorem askAll_cons (c : Channel P) (request : Request P) (rest : List (Request P)) :
    c.askAll (request :: rest) = (c.ask request).2.askAll rest := rfl

/-- A request with its answer, and the channel before and after it. -/
structure Exchange (P : Type) where
  before : Channel P
  request : Request P
  answer : Answer P
  after : Channel P

/-- The requests with their answers, in order. -/
def exchanges (c : Channel P) : List (Request P) → List (Exchange P)
  | [] => []
  | request :: rest =>
    ⟨c, request, (c.ask request).1, (c.ask request).2⟩ :: (c.ask request).2.exchanges rest

def Answer.received? : Answer P → Option (Envelope P)
  | .received e => some e
  | _ => none

/-- What the channel accepted. -/
def Exchange.accepted? (x : Exchange P) : Option (Envelope P) :=
  match x.answer with
  | .accepted => x.request.offered?
  | _ => none

/-- What was taken from the channel. -/
def Exchange.taken? (x : Exchange P) : Option (Envelope P) := x.answer.received?

end Channel

/-! ## Plain queues -/

/-- A list of envelopes, the oldest first, that is not to get longer than a bound. -/
structure PlainQueue (P : Type) where
  bound : Nat
  waiting : List (Envelope P) := []
  deriving DecidableEq, Repr

namespace PlainQueue

open Channel

/-- The answer to a request, and the queue after it. -/
def ask (q : PlainQueue P) (request : Request P) : Answer P × PlainQueue P :=
  match request.offered?, q.waiting with
  | some e, waiting =>
    if waiting.length < q.bound then (.accepted, { q with waiting := waiting ++ [e] })
    else (.refused ⟨e.message, q.bound⟩, q)
  | none, e :: rest => (.received e, { q with waiting := rest })
  | none, [] => (.nothing, q)

/-- The answers to requests, and the queue after them. -/
def askAll (q : PlainQueue P) : List (Request P) → List (Answer P) × PlainQueue P
  | [] => ([], q)
  | request :: rest =>
    (((q.ask request).2.askAll rest).map ((q.ask request).1 :: ·) id)

end PlainQueue

/-! ## One request -/

namespace Channel

variable {c : Channel P} {request : Request P} {requests : List (Request P)} {m : Message P}

/-- The queue that a channel stands for. -/
def plain (c : Channel P) : PlainQueue P := ⟨c.capacity, c.buffer.toList⟩

/-- A request queues what it offers, is refused for want of room, takes the front, or finds nothing. -/
theorem ask_cases (c : Channel P) (request : Request P) :
    (∃ e, request.offered? = some e ∧ c.canSend = true ∧
        c.ask request = (.accepted, { c with buffer := c.buffer.push e })) ∨
      (∃ e, request.offered? = some e ∧ c.canSend = false ∧
        c.ask request = (.refused ⟨e.message, c.capacity⟩, c)) ∨
      (∃ e d, request = .receive ∧ c.receive? = some (e, d) ∧ c.ask request = (.received e, d)) ∨
      request = .receive ∧ c.buffer.toList = [] ∧ c.ask request = (.nothing, c) := by
  have hqueue : ∀ m now, c.canSend = true ∧
        c.settle (c.enqueue m now) = (.accepted, { c with buffer := c.buffer.push ⟨m, now⟩ }) ∨
      c.canSend = false ∧ c.settle (c.enqueue m now) = (.refused ⟨m, c.capacity⟩, c) := by
    intro m now
    cases hroom : c.canSend with
    | true => exact .inl ⟨rfl, by rw [enqueue_of_room hroom]; rfl⟩
    | false => exact .inr ⟨rfl, by rw [enqueue_of_full hroom]; rfl⟩
  cases request with
  | send m =>
    rcases hqueue m 0 with hgood | hfull
    · exact .inl ⟨_, rfl, hgood⟩
    · exact .inr (.inl ⟨_, rfl, hfull⟩)
  | enqueue m now =>
    rcases hqueue m now with hgood | hfull
    · exact .inl ⟨_, rfl, hgood⟩
    · exact .inr (.inl ⟨_, rfl, hfull⟩)
  | receive =>
    cases htaken : c.receive? with
    | some taken => exact .inr (.inr (.inl ⟨taken.1, taken.2, rfl, rfl, by rw [ask, htaken]⟩))
    | none => exact .inr (.inr (.inr ⟨rfl, receive?_eq_none.1 htaken, by rw [ask, htaken]⟩))

/-- A channel answers as the queue that it stands for. -/
theorem ask_plain (c : Channel P) (request : Request P) :
    c.plain.ask request = (c.ask request).map id plain := by
  obtain ⟨e, hoffered, hroom, hask⟩ | ⟨e, hoffered, hfull, hask⟩ | ⟨e, d, rfl, htaken, hask⟩ |
    ⟨rfl, hempty, hask⟩ := c.ask_cases request
  · rw [canSend, decide_eq_true_eq, length] at hroom
    rw [hask, PlainQueue.ask, hoffered]
    simp [plain, hroom]
  · rw [canSend, decide_eq_false_iff_not, length] at hfull
    rw [hask, PlainQueue.ask, hoffered]
    simp [plain, hfull]
  · obtain ⟨hqueue, -, hcapacity⟩ := receive?_eq_some.1 htaken
    rw [hask, PlainQueue.ask]
    simp [plain, Request.offered?, hqueue, hcapacity]
  · rw [hask, PlainQueue.ask]
    simp [plain, Request.offered?, hempty]

theorem peek?_eq_head? (c : Channel P) : c.peek? = c.buffer.toList.head?.map (·.message) := by
  simp [peek?, List.head?_eq_getElem?]

/-- What can be seen of a channel tells its answer, and the answer tells what becomes of it. -/
structure Exchange.Guarded (x : Exchange P) : Prop where
  address : x.after.address = x.before.address
  capacity : x.after.capacity = x.before.capacity
  fits : x.after.length ≤ x.after.capacity
  canSend : x.before.canSend = decide (x.before.length < x.before.capacity)
  canReceive : x.before.canReceive = decide (0 < x.before.length)
  /-- A message is accepted if there is room, and is handed back with the capacity otherwise. -/
  sent : ∀ e, x.request.offered? = some e →
    x.answer = if x.before.canSend then .accepted else .refused ⟨e.message, x.before.capacity⟩
  /-- A message is received if there is one, and it is the one that was in sight. -/
  received : x.request = .receive → x.answer.received?.isSome = x.before.canReceive
  peeked : x.request = .receive → x.answer.received?.map (·.message) = x.before.peek?
  /-- Without success nothing changes. -/
  unchanged : x.answer ≠ .accepted → x.answer.received? = none → x.after = x.before

/-- A channel within its capacity answers as can be seen of it, and stays within its capacity. -/
theorem guarded_ask (hc : c.Fits) (request : Request P) :
    (⟨c, request, (c.ask request).1, (c.ask request).2⟩ : Exchange P).Guarded := by
  obtain ⟨e, hoffered, hroom, hask⟩ | ⟨e, hoffered, hfull, hask⟩ | ⟨e, d, rfl, htaken, hask⟩ |
    ⟨rfl, hempty, hask⟩ := c.ask_cases request
  · have hsend : request ≠ .receive := by
      rintro rfl
      cases hoffered
    rw [hask]
    exact
      { address := rfl
        capacity := rfl
        fits := fits_push hroom
        canSend := rfl
        canReceive := canReceive_eq
        sent := fun _ _ => (if_pos hroom).symm
        received := fun hreceive => absurd hreceive hsend
        peeked := fun hreceive => absurd hreceive hsend
        unchanged := fun hnot _ => absurd rfl hnot }
  · have hsend : request ≠ .receive := by
      rintro rfl
      cases hoffered
    rw [hask]
    exact
      { address := rfl
        capacity := rfl
        fits := hc
        canSend := rfl
        canReceive := canReceive_eq
        sent := fun e' he' => by
          cases hoffered.symm.trans he'
          simp [hfull]
        received := fun hreceive => absurd hreceive hsend
        peeked := fun hreceive => absurd hreceive hsend
        unchanged := fun _ _ => rfl }
  · obtain ⟨hqueue, haddress, hcapacity⟩ := receive?_eq_some.1 htaken
    have hsize : c.length = d.length + 1 := by
      simpa [length] using congrArg List.length hqueue
    rw [hask]
    exact
      { address := haddress
        capacity := hcapacity
        fits := hc.receive htaken
        canSend := rfl
        canReceive := canReceive_eq
        sent := fun _ h => by cases h
        received := fun _ => by simp [Answer.received?, canReceive_eq, hsize]
        peeked := fun _ => by simp [Answer.received?, peek?_eq_head?, hqueue]
        unchanged := fun _ h => by cases h }
  · have hsize : c.length = 0 := by simpa [length] using congrArg List.length hempty
    rw [hask]
    exact
      { address := rfl
        capacity := rfl
        fits := hc
        canSend := rfl
        canReceive := canReceive_eq
        sent := fun _ h => by cases h
        received := fun _ => by simp [Answer.received?, canReceive_eq, hsize]
        peeked := fun _ => by simp [Answer.received?, peek?_eq_head?, hempty]
        unchanged := fun _ _ => rfl }

/-- One request adds what it queues at the back and takes what it receives from the front. -/
theorem ask_carries (c : Channel P) (request : Request P) :
    let x : Exchange P := ⟨c, request, (c.ask request).1, (c.ask request).2⟩
    x.taken?.toList ++ x.after.buffer.toList = c.buffer.toList ++ x.accepted?.toList := by
  obtain ⟨e, hoffered, -, hask⟩ | ⟨e, -, -, hask⟩ | ⟨e, d, rfl, htaken, hask⟩ |
    ⟨rfl, -, hask⟩ := c.ask_cases request
  · simp [hask, Exchange.taken?, Answer.received?, Exchange.accepted?, hoffered]
  · simp [hask, Exchange.taken?, Answer.received?, Exchange.accepted?]
  · simp [hask, Exchange.taken?, Answer.received?, Exchange.accepted?, (receive?_eq_some.1 htaken).1]
  · simp [hask, Exchange.taken?, Answer.received?, Exchange.accepted?]

/-! ## Many requests -/

/-- A channel answers many requests as the queue that it stands for. -/
theorem askAll_plain (c : Channel P) (requests : List (Request P)) :
    c.plain.askAll requests = ((c.exchanges requests).map (·.answer), (c.askAll requests).plain) := by
  induction requests generalizing c with
  | nil => rfl
  | cons request rest ih =>
    rw [PlainQueue.askAll, ask_plain]
    dsimp only [Prod.map]
    rw [ih]
    rfl

/-- What was taken and then what is left, is what was there at first and then what was accepted. -/
theorem exchanges_carry (c : Channel P) (requests : List (Request P)) :
    (c.exchanges requests).filterMap Exchange.taken? ++ (c.askAll requests).buffer.toList =
      c.buffer.toList ++ (c.exchanges requests).filterMap Exchange.accepted? := by
  induction requests generalizing c with
  | nil => simp [exchanges, askAll]
  | cons request rest ih =>
    have hfirst := c.ask_carries request
    have hrest := ih (c.ask request).2
    have hsplit : ∀ (f : Exchange P → Option (Envelope P)) (x : Exchange P) (more : List (Exchange P)),
        (x :: more).filterMap f = (f x).toList ++ more.filterMap f := by
      intro f x more
      rw [List.filterMap_cons]
      cases f x <;> rfl
    -- What the first request leaves is what the others find.
    rw [exchanges, hsplit, hsplit, List.append_assoc]
    exact (congrArg _ hrest).trans (by rw [← List.append_assoc, hfirst, List.append_assoc])

theorem guarded_exchanges (hc : c.Fits) : ∀ x ∈ c.exchanges requests, x.Guarded := by
  induction requests generalizing c with
  | nil => simp [exchanges]
  | cons request rest ih =>
    have hfirst := guarded_ask hc request
    exact List.forall_mem_cons.2 ⟨hfirst, ih hfirst.fits⟩

theorem askAll_keeps (hc : c.Fits) (requests : List (Request P)) :
    (c.askAll requests).address = c.address ∧ (c.askAll requests).capacity = c.capacity ∧
      (c.askAll requests).Fits := by
  induction requests generalizing c with
  | nil => exact ⟨rfl, rfl, hc⟩
  | cons request rest ih =>
    have hfirst := guarded_ask hc request
    obtain ⟨haddress, hcapacity, hfits⟩ := ih (c := (c.ask request).2) hfirst.fits
    exact ⟨haddress.trans hfirst.address, hcapacity.trans hfirst.capacity, hfits⟩

/-- Sends take nothing, so that the message in sight stays in sight. -/
theorem peek?_askAll (hpeek : c.peek? = some m) (hsends : .receive ∉ requests) :
    (c.askAll requests).peek? = some m := by
  induction requests generalizing c with
  | nil => exact hpeek
  | cons request rest ih =>
    obtain ⟨hfirst, hrest⟩ := not_or.1 (mt List.mem_cons.2 hsends)
    rw [askAll_cons]
    refine ih ?_ hrest
    obtain ⟨e, -, -, hask⟩ | ⟨e, -, -, hask⟩ | ⟨e, d, rfl, -⟩ | ⟨rfl, -⟩ := c.ask_cases request
    · rw [peek?_eq_head?] at hpeek
      rw [hask, peek?_eq_head?, Array.toList_push, List.head?_append, Option.map_or, hpeek]
      rfl
    · rwa [hask]
    · exact absurd rfl hfirst
    · exact absurd rfl hfirst

/-- The message in sight is the one that is received. -/
theorem ask_receive_of_peek? (hpeek : c.peek? = some m) :
    ∃ now, (c.ask .receive).1 = .received ⟨m, now⟩ := by
  obtain ⟨e, hoffered, -⟩ | ⟨e, hoffered, -⟩ | ⟨e, d, -, htaken, hask⟩ | ⟨-, hempty, -⟩ :=
    c.ask_cases .receive
  · cases hoffered
  · cases hoffered
  · rw [peek?_eq_head?, (receive?_eq_some.1 htaken).1] at hpeek
    cases hpeek
    exact ⟨e.enqueuedAt, by rw [hask]⟩
  · simp [peek?_eq_head?, hempty] at hpeek

/-- Where there is room for its messages, a new channel is made. -/
theorem allocate_eq_ok [Payload P] {owner name : String} {capacity : Nat} :
    allocate owner name capacity = .ok c ↔
      max 1 capacity * Envelope.bytes P < 1 <<< 63 ∧ c = .new owner name capacity :=
  Memory.map_reserve_eq_ok

/-- A new channel is a queue with room for as many messages as its capacity, and at least for one:
whatever is asked of it, it answers as the plain queue does, what it accepted is what was taken from
it and then what is in it, and what can be seen of it tells the next answer. -/
theorem refines_queue (owner name : String) (capacity : Nat) (requests : List (Request P)) :
    let start : Channel P := .new owner name capacity
    let past := start.exchanges requests
    let c := start.askAll requests
    PlainQueue.askAll ⟨max 1 capacity, []⟩ requests = (past.map (·.answer), c.plain) ∧
      (c.address = ⟨owner, name⟩ ∧ c.capacity = max 1 capacity ∧ c.length ≤ c.capacity) ∧
      past.filterMap Exchange.taken? ++ c.buffer.toList = past.filterMap Exchange.accepted? ∧
      (∀ x ∈ past, x.Guarded) ∧
      ∀ m sends, c.peek? = some m → .receive ∉ sends →
        ∃ now, ((c.askAll sends).ask .receive).1 = .received ⟨m, now⟩ := by
  intro start past c
  have hfits : start.Fits := Nat.zero_le _
  refine ⟨start.askAll_plain requests, askAll_keeps hfits requests, ?_, guarded_exchanges hfits, ?_⟩
  · exact start.exchanges_carry requests
  · exact fun m sends hpeek hsends => ask_receive_of_peek? (peek?_askAll hpeek hsends)

/-- A channel that was asked to have no room: the second message is refused, and the first one is
received after it. -/
theorem refines_queue_single :
    let home : Address := ⟨"a", "in"⟩
    let first : Message Nat := ⟨home, home, 7, none⟩
    let second : Message Nat := ⟨home, home, 8, none⟩
    let c := (Channel.new "a" "in" 0).askAll [.enqueue first 4]
    c.peek? = some first ∧ .receive ∉ [Request.send second] ∧
      (c.ask (.send second)).1 = .refused ⟨second, 1⟩ ∧
      ∃ now, ((c.askAll [.send second]).ask .receive).1 = .received ⟨first, now⟩ := by
  intro home first second c
  have hpeek : c.peek? = some first := by rfl
  have hsends : .receive ∉ [Request.send second] := by decide
  obtain ⟨-, -, -, -, hnext⟩ := refines_queue "a" "in" 0 [.enqueue first 4]
  exact ⟨hpeek, hsends, by rfl, hnext first [.send second] hpeek hsends⟩

end Channel

end ActorLogic
