import ActorLogic.Invariant
/-!
# Actions and steps

What a process does in one turn is a tree: it ends with the new state of the process, or it asks
something of the world and goes on with the answer. A step is an action with a label. When it is a
process's turn to offer steps, it sees the clock and all channels.
-/

namespace ActorLogic

/-- An action of a process with states in `σ`, in a world whose messages carry `P`. -/
inductive Action (P σ : Type) where
  /-- End the turn in a state. -/
  | done (state : σ)
  /-- Send a message to its target; the answer is the refusal, if there is one. -/
  | send (m : Message P) (k : Except (SendError P) Unit → Action P σ)
  /-- Take the oldest message of a channel; the answer is `none` if the channel is empty. -/
  | receive (key : ChannelKey) (k : Option (Message P) → Action P σ)
  /-- Look at the clock and the channels as they are now. -/
  | look (k : WorldView P → Action P σ)
  /-- Stop the run. -/
  | stop (fault : RunFault)

/-- The action whose final state is changed by a function. -/
def Action.map {P σ τ : Type} (f : σ → τ) : Action P σ → Action P τ
  | .done s => .done (f s)
  | .send m k => .send m fun answer => (k answer).map f
  | .receive key k => .receive key fun answer => (k answer).map f
  | .look k => .look fun view => (k view).map f
  | .stop fault => .stop fault

structure Step (P σ : Type) where
  label : String
  action : Action P σ

def Step.map {P σ τ : Type} (f : σ → τ) (s : Step P σ) : Step P τ := ⟨s.label, s.action.map f⟩

/-- The text that stands for a step in reports. -/
def Step.display {P σ : Type} (s : Step P σ) : String :=
  "Step \x7b label: " ++ quotedText s.label ++ ", .. \x7d"

/-- The steps that a process in a state offers, given a view. -/
abbrev Behaviour (P σ : Type) := σ → WorldView P → Except RunFault (List (Step P σ))

/-- A member of a world: its identity and its own state. -/
structure Process (σ : Type) where
  id : String
  state : σ
  deriving DecidableEq, Repr

namespace WorldView

variable {P : Type}

/-- The channel that a key names. -/
def channel (v : WorldView P) (key : ChannelKey) : Except RunFault (Channel P) := v.channels.get key

def canSend (v : WorldView P) (key : ChannelKey) : Except RunFault Bool :=
  (v.channel key).map (·.canSend)

def canReceive (v : WorldView P) (key : ChannelKey) : Except RunFault Bool :=
  (v.channel key).map (·.canReceive)

end WorldView

end ActorLogic
