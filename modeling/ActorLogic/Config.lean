import ActorLogic.Address
/-!
# Simulation configurations

The seed of the generator, the bound on the steps of a run, and whether invariants are checked.
-/

namespace ActorLogic

structure SimulationConfig where
  /-- Zero asks for a seed that differs from run to run. -/
  seed : UInt64 := 0
  maxSteps : Nat := 1000
  checkInvariants : Bool := true
  deriving DecidableEq, Repr

/-- Why a world cannot be built. -/
inductive WorldError where
  /-- A run could make no step. -/
  | noSteps
  | duplicateChannel (address : Address)
  | duplicateProcess (id : String)
  deriving DecidableEq, Repr

/-- The text of an error. -/
def WorldError.message : WorldError → String
  | .noSteps => "Invalid simulation config: max_steps must be positive"
  | .duplicateChannel a => "Duplicate channel address: " ++ a.display
  | .duplicateProcess id => "Duplicate process id: " ++ id

namespace SimulationConfig

def withSeed (c : SimulationConfig) (seed : UInt64) : SimulationConfig := { c with seed := seed }

def withMaxSteps (c : SimulationConfig) (n : Nat) : SimulationConfig := { c with maxSteps := n }

/-- A configuration that allows at least one step. -/
def validate (c : SimulationConfig) : Except WorldError Unit :=
  if c.maxSteps = 0 then .error .noSteps else .ok ()

def toJson (c : SimulationConfig) : Json :=
  .object
    [("seed", .int c.seed.toNat), ("max_steps", .int c.maxSteps),
     ("check_invariants", .bool c.checkInvariants)]

def ofJson? (j : Json) : Option SimulationConfig := do
  match ← j.record? 0 ["seed", "max_steps", "check_invariants"] with
  | [seed, maxSteps, checkInvariants] =>
    pure ⟨← Json.fieldOr 0 (fun j => j.asWord?.map UInt64.ofNat) seed,
      ← Json.fieldOr 1000 Json.asWord? maxSteps, ← Json.fieldOr true Json.asBool? checkInvariants⟩
  | _ => none

end SimulationConfig

end ActorLogic
