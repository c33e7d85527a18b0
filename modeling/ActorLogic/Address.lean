import ActorLogic.Json.Basic
/-!
# Addresses

A channel is named by the actor that owns it and by a name of its own.
-/

namespace ActorLogic

structure Address where
  actor : String
  channel : String
  deriving DecidableEq, Hashable, Repr, Inhabited

namespace Address

/-- How an address is shown. Different addresses may look alike. -/
def display (a : Address) : String := a.actor ++ "/" ++ a.channel

def toJson (a : Address) : Json :=
  .object [("actor", .text a.actor), ("channel", .text a.channel)]

def ofJson? (j : Json) : Option Address := do
  match ← j.record? 2 ["actor", "channel"] with
  | [some actor, some channel] => pure ⟨← actor.asText?, ← channel.asText?⟩
  | _ => none

/-- The JSON form of an address that may be missing. -/
def optionalJson : Option Address → Json
  | none => .null
  | some a => a.toJson

end Address

end ActorLogic
