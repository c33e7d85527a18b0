import ActorLogic.Config
import ActorLogic.Random.Generator
import ActorLogic.World.Turn
/-!
# Worlds

A world is a clock, a generator, channels and processes, together with what has happened so far:
deliveries, refused sends, objections of invariants, and the steps that were taken.
-/

namespace ActorLogic

/-- A step that was taken. -/
structure Firing where
  actor : String
  label : String
  deriving DecidableEq, Repr

structure World (P σ : Type) where
  /-- The number of steps taken. -/
  time : Nat := 0
  seed : UInt64
  generator : Generator
  /-- What the processes offer. -/
  behaviour : Behaviour P σ
  processes : Array (Process σ)
  channels : ChannelTable P
  /-- All deliveries, in order. -/
  events : Array (Event P) := #[]
  invariants : Array (Invariant P)
  violations : Array RecordedViolation := #[]
  checkInvariants : Bool
  refusedSends : Nat := 0
  /-- The bound of a run that is given none. -/
  maxSteps : Nat
  fired : Array Firing := #[]

/-- What a world is built from. -/
structure Setup (P σ : Type) where
  config : SimulationConfig := {}
  behaviour : Behaviour P σ
  channels : List (Channel P) := []
  processes : List (Process σ) := []
  invariants : List (Invariant P) := []

/-! ## Building -/

variable {P σ : Type}

/-- Register channels in order, up to the first whose address is taken. -/
def ChannelTable.register : ChannelTable P → List (Channel P) → Except WorldError (ChannelTable P)
  | t, [] => .ok t
  | t, c :: rest =>
    match t.insert? c with
    | none => .error (.duplicateChannel c.address)
    | some t => t.register rest

/-- The first element that is among those seen or before it. -/
def firstRepeated {α : Type} [DecidableEq α] (seen : List α) : List α → Option α
  | [] => none
  | a :: rest => if a ∈ seen then some a else firstRepeated (a :: seen) rest

namespace Setup

/-- The seed that is used. `fresh` stands in for a seed of zero. -/
def effectiveSeed (s : Setup P σ) (fresh : UInt64) : UInt64 :=
  if s.config.seed = 0 then fresh else s.config.seed

/-- The world at tick zero. Faults are looked for in the configuration, then among the channels,
then among the processes. -/
def build (s : Setup P σ) (fresh : UInt64) : Except WorldError (World P σ) := do
  s.config.validate
  let channels ← ChannelTable.empty.register s.channels
  match firstRepeated [] (s.processes.map (·.id)) with
  | some id => .error (.duplicateProcess id)
  | none =>
    .ok
      { seed := s.effectiveSeed fresh
        generator := .ofSeed (s.effectiveSeed fresh)
        behaviour := s.behaviour
        processes := s.processes.toArray
        channels := channels
        invariants := (Invariant.channelCapacity P :: s.invariants).toArray
        checkInvariants := s.config.checkInvariants
        maxSteps := s.config.maxSteps }

end Setup

/-! ## Looking at a world -/

namespace World

def view (w : World P σ) : WorldView P := ⟨w.time, w.channels⟩

def channel (w : World P σ) (key : ChannelKey) : Except RunFault (Channel P) := w.channels.get key

def processIds (w : World P σ) : List String := w.processes.toList.map (·.id)

/-- The state of a process. -/
def process? (w : World P σ) (id : String) : Option σ :=
  (w.processes.find? fun p => p.id = id).map (·.state)

/-- Add an invariant, to be checked after all others. -/
def addInvariant (w : World P σ) (i : Invariant P) : World P σ :=
  { w with invariants := w.invariants.push i }

end World

end ActorLogic
