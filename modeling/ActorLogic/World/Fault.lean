import ActorLogic.Address
/-!
# Faults of a run

A step that addresses a channel wrongly stops the whole run. So does a scripted process that names a
variable it does not have.
-/

namespace ActorLogic

inductive RunFault where
  /-- No channel is registered at the address. -/
  | unknownChannel (address : Address)
  /-- No channel has this number. -/
  | noSuchChannel (id : Nat)
  /-- Only the owner receives from a channel. -/
  | notOwner (actor : String) (channel : Address)
  /-- A step receives at most one message. -/
  | alreadyReceived (actor : String) (tick : Nat)
  /-- No variable has this number. -/
  | noSuchVariable (index : Nat)
  /-- A remainder by zero. -/
  | zeroModulus
  deriving DecidableEq, Repr

/-- The text of a fault. -/
def RunFault.message : RunFault → String
  | .unknownChannel a => "unknown channel address " ++ a.display
  | .noSuchChannel id => "no channel " ++ toString id
  | .notOwner actor a =>
    "actor " ++ actor ++ " cannot receive from channel " ++ a.display ++ " owned by " ++ a.actor
  | .alreadyReceived actor tick =>
    "actor " ++ actor ++ " already received a message at tick " ++ toString tick
  | .noSuchVariable index => "no variable " ++ toString index
  | .zeroModulus => "attempt to calculate the remainder with a divisor of zero"

end ActorLogic
