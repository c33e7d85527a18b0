import ActorLogic.World.Basic
/-!
# The counter

An actor that counts up to a maximum and down to zero, one at a time and without any channel.
-/

namespace ActorLogic

structure Counter where
  value : Int
  max : Int
  increments : Nat := 0
  decrements : Nat := 0
  deriving DecidableEq, Repr

namespace Counter

/-- The identity of the actor. -/
def actor : String := "counter"

/-- A counter that has not moved. -/
def new (start max : Int) : Counter := { value := start, max := max }

def increment (c : Counter) : Counter :=
  { c with value := c.value + 1, increments := c.increments + 1 }

def decrement (c : Counter) : Counter :=
  { c with value := c.value - 1, decrements := c.decrements + 1 }

/-- The moves that stay in bounds. -/
def steps (P : Type) (c : Counter) : List (Step P Counter) :=
  (if c.value < c.max then [⟨"increment", .done c.increment⟩] else [])
    ++ (if 0 < c.value then [⟨"decrement", .done c.decrement⟩] else [])

/-- A counter offers the same whatever goes on around it. -/
def behaviour (P : Type) : Behaviour P Counter := fun c _ => .ok (c.steps P)

/-- The world of a single counter. -/
def setup (config : SimulationConfig) (start max : Int) : Setup Unit Counter where
  config := config
  behaviour := behaviour Unit
  processes := [⟨actor, new start max⟩]

/-- The world of a counter that starts at five and counts up to twenty. -/
def standard (config : SimulationConfig) : Setup Unit Counter := setup config 5 20

end Counter

end ActorLogic
