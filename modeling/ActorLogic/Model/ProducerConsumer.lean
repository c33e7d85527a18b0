import ActorLogic.World.Basic
/-!
# Producer and consumer

A producer sends the numbers 0, 1, 2, … below a limit to the inbox of a consumer, which keeps what
it receives. Each of them offers its step only when the inbox allows it.
-/

namespace ActorLogic

structure Producer where
  target : Address
  limit : Nat
  sent : Nat := 0
  deriving DecidableEq, Repr

structure Consumer where
  inbox : Address
  /-- What was received, the latest first. -/
  taken : List Nat := []
  deriving DecidableEq, Repr

/-- A member of the world. -/
inductive Party where
  | producer (p : Producer)
  | consumer (c : Consumer)
  deriving DecidableEq, Repr

/-! ## Behaviour -/

namespace Producer

def actor : String := "producer"

/-- The message with the next number. -/
def message (p : Producer) : Message Nat :=
  { sender := ⟨actor, "out"⟩, target := p.target, payload := p.sent }

/-- Send the next number, and count it if it was admitted. -/
def produce (p : Producer) : Step Nat Party where
  label := "produce"
  action := .send p.message fun
    | .ok () => .done (.producer { p with sent := p.sent + 1 })
    | .error _ => .done (.producer p)

def offers (p : Producer) (view : WorldView Nat) : Except RunFault (List (Step Nat Party)) :=
  if p.limit ≤ p.sent then .ok []
  else (view.canSend (.address p.target)).map fun room => if room then [p.produce] else []

end Producer

namespace Consumer

def actor : String := "consumer"

/-- The numbers received, in order. -/
def received (c : Consumer) : List Nat := c.taken.reverse

/-- Take the next number and keep it. -/
def consume (c : Consumer) : Step Nat Party where
  label := "consume"
  action := .receive (.address c.inbox) fun
    | some m => .done (.consumer { c with taken := m.payload :: c.taken })
    | none => .done (.consumer c)

def offers (c : Consumer) (view : WorldView Nat) : Except RunFault (List (Step Nat Party)) :=
  (view.canReceive (.address c.inbox)).map fun waiting => if waiting then [c.consume] else []

end Consumer

def Party.behaviour : Behaviour Nat Party
  | .producer p => p.offers
  | .consumer c => c.offers

/-! ## The world -/

namespace ProducerConsumer

/-- The channel between the two. -/
def inbox : Address := ⟨Consumer.actor, "inbox"⟩

/-- A world in which `limit` numbers go through an inbox with a capacity. -/
def setup (config : SimulationConfig) (limit capacity : Nat) : Setup Nat Party where
  config := config
  behaviour := Party.behaviour
  channels := [.new Consumer.actor "inbox" capacity]
  processes :=
    [⟨Producer.actor, .producer { target := inbox, limit := limit }⟩,
     ⟨Consumer.actor, .consumer { inbox := inbox }⟩]

/-- The same, once there is room for the inbox. -/
def allocate (config : SimulationConfig) (limit capacity : Nat) :
    Except MemoryFault (Setup Nat Party) :=
  (Channel.reserve Nat capacity).map fun () => setup config limit capacity

variable (w : World Nat Party)

/-- How many numbers the producer has sent. -/
def sent : Nat :=
  match w.process? Producer.actor with
  | some (.producer p) => p.sent
  | _ => 0

/-- The numbers that the consumer has received, in order. -/
def received : List Nat :=
  match w.process? Consumer.actor with
  | some (.consumer c) => c.received
  | _ => []

end ProducerConsumer

end ActorLogic
