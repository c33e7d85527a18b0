import ActorLogic.Address
import ActorLogic.Payload
/-!
# Messages

A message names its sender, the channel it goes to, and perhaps a channel for the answer. The
simulation routes by the target alone.
-/

namespace ActorLogic

structure Message (P : Type) where
  sender : Address
  target : Address
  payload : P
  replyTo : Option Address := none
  deriving DecidableEq, Repr

namespace Message

def toJson {P : Type} [Payload P] (m : Message P) : Json :=
  .object
    [("from", m.sender.toJson), ("to", m.target.toJson), ("payload", Payload.toJson m.payload),
     ("reply_to", Address.optionalJson m.replyTo)]

/-- A message whose payload is read by `read`. The list form has all four fields. -/
def ofJson? {P : Type} (read : Json → Option P) (j : Json) : Option (Message P) := do
  match ← j.record? 4 ["from", "to", "payload", "reply_to"] with
  | [some sender, some target, some payload, replyTo] =>
    pure ⟨← Address.ofJson? sender, ← Address.ofJson? target, ← read payload,
      ← Json.optional? Address.ofJson? replyTo⟩
  | _ => none

end Message

end ActorLogic
