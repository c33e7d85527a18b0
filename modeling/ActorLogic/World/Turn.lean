import ActorLogic.Event
import ActorLogic.World.Action
/-!
# Turns

A turn is the tick in which one process runs one of its steps. It may send any number of messages,
but it delivers at most one: asking for a second one is a fault, unless the channel is empty.
-/

namespace ActorLogic

structure Turn (P : Type) where
  time : Nat
  /-- The process whose turn it is. -/
  actor : String
  channels : ChannelTable P
  /-- How many sends were refused in this turn. -/
  refused : Nat := 0
  /-- What was delivered in this turn. -/
  delivery : Option (Event P) := none

namespace Turn

variable {P σ : Type}

def view (t : Turn P) : WorldView P := ⟨t.time, t.channels⟩

/-- Send a message. A refused send is counted and changes nothing else. -/
def send (t : Turn P) (m : Message P) : Except RunFault (Except (SendError P) Unit × Turn P) := do
  let n ← t.channels.resolve (.address m.target)
  let c ← t.channels.atId n
  match c.enqueue m t.time with
  | .ok c => .ok (.ok (), { t with channels := t.channels.set n c })
  | .error e => .ok (.error e, { t with refused := t.refused + 1 })

/-- Receive from a channel of the actor's own. -/
def receive (t : Turn P) (key : ChannelKey) : Except RunFault (Option (Message P) × Turn P) := do
  let n ← t.channels.resolve key
  let c ← t.channels.atId n
  if c.owner ≠ t.actor then .error (.notOwner t.actor c.address)
  else if t.delivery.isSome && c.canReceive then .error (.alreadyReceived t.actor t.time)
  else match c.receive? with
    | none => .ok (none, t)
    | some (e, c) =>
      .ok (some e.message,
        { t with
          channels := t.channels.set n c
          delivery := some (Event.delivery t.time e.message e.enqueuedAt) })

/-- Run an action to its end. -/
def run : Action P σ → Turn P → Except RunFault (σ × Turn P)
  | .done s, t => .ok (s, t)
  | .send m k, t =>
    match t.send m with
    | .error f => .error f
    | .ok (answer, t) => run (k answer) t
  | .receive key k, t =>
    match t.receive key with
    | .error f => .error f
    | .ok (answer, t) => run (k answer) t
  | .look k, t => run (k t.view) t
  | .stop f, _ => .error f

end Turn

end ActorLogic
