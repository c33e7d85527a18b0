import ActorLogic.Memory
import ActorLogic.Message
/-!
# Channels

A bounded queue of messages. Messages leave in the order in which they came, each with the tick at
which it came. A send to a full channel is refused and hands the message back; a channel never holds
more than its capacity. The room for all of them is reserved before the channel is made, so that a
send never fails for want of memory.
-/

namespace ActorLogic

/-- A queued message and the tick at which it was queued. -/
structure Envelope (P : Type) where
  message : Message P
  enqueuedAt : Nat
  deriving DecidableEq, Repr

/-- A refused message and the capacity that was used up. -/
structure SendError (P : Type) where
  message : Message P
  capacity : Nat
  deriving DecidableEq, Repr

/-- The text of a refusal. It names the message's target. -/
def SendError.text {P : Type} (e : SendError P) : String :=
  "channel " ++ e.message.target.display ++ " is full (capacity " ++ toString e.capacity ++ ")"

/-- The parts of a refusal, written out for a developer. -/
def SendError.details {P : Type} (e : SendError P) : String :=
  "SendError \x7b to: Address \x7b actor: ActorId(" ++ quotedText e.message.target.actor
    ++ "), channel: " ++ quotedText e.message.target.channel ++ " \x7d, capacity: "
    ++ toString e.capacity ++ ", .. \x7d"

/-- The bytes that a queued message takes. A text takes 24, an address is two texts, a message has
three addresses, and the tick takes eight. -/
def Envelope.bytes (P : Type) [Payload P] : Nat := 3 * 48 + Payload.bytes P + 8

structure Channel (P : Type) where
  address : Address
  capacity : Nat
  /-- The queued messages, the oldest first. -/
  buffer : Array (Envelope P) := #[]
  deriving DecidableEq, Repr

namespace Channel

variable {P : Type}

/-- A channel without messages. A capacity of zero counts as one. -/
def new (owner name : String) (capacity : Nat) : Channel P :=
  { address := ⟨owner, name⟩, capacity := max 1 capacity }

/-- Reserve the room for the messages of a channel. -/
def reserve (P : Type) [Payload P] (capacity : Nat) : Except MemoryFault Unit :=
  Memory.reserve (max 1 capacity) (Envelope.bytes P)

/-- A channel without messages, once there is room for them. -/
def allocate [Payload P] (owner name : String) (capacity : Nat) :
    Except MemoryFault (Channel P) :=
  (reserve P capacity).map fun () => .new owner name capacity

def owner (c : Channel P) : String := c.address.actor

def name (c : Channel P) : String := c.address.channel

def length (c : Channel P) : Nat := c.buffer.size

def isEmpty (c : Channel P) : Bool := c.buffer.isEmpty

/-- There is room for a message. -/
def canSend (c : Channel P) : Bool := c.length < c.capacity

/-- There is a message to take. -/
def canReceive (c : Channel P) : Bool := !c.isEmpty

/-- The oldest message. -/
def peek? (c : Channel P) : Option (Message P) := c.buffer[0]?.map (·.message)

/-- Queue a message at a tick, if there is room. -/
def enqueue (c : Channel P) (m : Message P) (now : Nat) : Except (SendError P) (Channel P) :=
  if c.canSend then .ok { c with buffer := c.buffer.push ⟨m, now⟩ }
  else .error ⟨m, c.capacity⟩

/-- Queue a message before the simulation starts. -/
def send (c : Channel P) (m : Message P) : Except (SendError P) (Channel P) := c.enqueue m 0

/-- Queue messages in order before the simulation starts; also those that were refused. -/
def sendAll (c : Channel P) : List (Message P) → Channel P × List (SendError P)
  | [] => (c, [])
  | m :: rest =>
    match c.send m with
    | .ok c => c.sendAll rest
    | .error e => (c.sendAll rest).map id (e :: ·)

/-- Take the oldest message. -/
def receive? (c : Channel P) : Option (Envelope P × Channel P) :=
  c.buffer[0]?.map fun e => (e, { c with buffer := c.buffer.extract 1 c.buffer.size })

end Channel

end ActorLogic
