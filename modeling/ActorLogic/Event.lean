import ActorLogic.Message
import ActorLogic.Json.Printer
/-!
# Delivery events

What the log says of a message that was received: when, how long it had waited, and what was in it.
-/

namespace ActorLogic

structure Event (P : Type) where
  time : Nat
  sender : Address
  target : Address
  payload : P
  replyTo : Option Address
  /-- Ticks that the message spent in its channel. -/
  queueDelay : Nat
  deriving DecidableEq, Repr

namespace Event

variable {P : Type}

/-- The event of receiving a message at tick `time`, when it was queued at tick `enqueuedAt`. -/
def delivery (time : Nat) (m : Message P) (enqueuedAt : Nat) : Event P :=
  ⟨time, m.sender, m.target, m.payload, m.replyTo, time - enqueuedAt⟩

/-- The tick at which the message was queued. -/
def enqueuedAt (e : Event P) : Nat := e.time - e.queueDelay

/-- An event on a line for readers. -/
def display [Payload P] (e : Event P) : String :=
  "[t=" ++ toString e.time ++ "] " ++ e.sender.display ++ " → " ++ e.target.display ++ " "
    ++ Payload.display e.payload ++ " (waited " ++ toString e.queueDelay ++ ")"
    ++ match e.replyTo with
      | none => ""
      | some a => " reply-to " ++ a.display

def toJson [Payload P] (e : Event P) : Json :=
  .object
    [("time", .int e.time), ("from", e.sender.toJson), ("to", e.target.toJson),
     ("payload", Payload.toJson e.payload), ("reply_to", Address.optionalJson e.replyTo),
     ("queue_delay", .int e.queueDelay)]

/-- An event as one line of a written log. -/
def line [Payload P] (e : Event P) : String := e.toJson.compact ++ "\n"

/-- An event whose payload is read by `read`. The list form has all six fields. -/
def ofJson? (read : Json → Option P) (j : Json) : Option (Event P) := do
  match ← j.record? 6 ["time", "from", "to", "payload", "reply_to", "queue_delay"] with
  | [some time, some sender, some target, some payload, replyTo, some delay] =>
    pure ⟨← time.asWord?, ← Address.ofJson? sender, ← Address.ofJson? target, ← read payload,
      ← Json.optional? Address.ofJson? replyTo, ← delay.asWord?⟩
  | _ => none

end Event

end ActorLogic
