import ActorLogic.Invariant
/-!
# Limits

Invariants that keep a channel, all channels together, or the clock below a bound.
-/

namespace ActorLogic

structure Limit where
  name : String
  description : String := ""
  severity : Severity
  /-- The greatest number that is allowed. -/
  max : Nat
  /-- A channel whose length is limited. -/
  channel : Option ChannelKey := none
  /-- Whether the number of all queued messages is limited. -/
  total : Bool := false
  /-- Whether the clock is limited. -/
  clock : Bool := false
  deriving DecidableEq, Repr

namespace Limit

variable {P : Type}

/-- The objection to the length of the limited channel. -/
def channelObjection (l : Limit) (view : WorldView P) : Except RunFault (Option Violation) :=
  match l.channel with
  | none => .ok none
  | some key => (view.channels.get key).map fun c =>
    if l.max < c.length then some (.capacityExceeded c.address c.length l.max) else none

/-- The objection to the other numbers. -/
def otherObjection (l : Limit) (view : WorldView P) : Option Violation :=
  if (l.total ∧ l.max < view.channels.queued) ∨ (l.clock ∧ l.max < view.time) then
    some (.custom l.name l.description)
  else none

def toInvariant (l : Limit) : Invariant P where
  name := l.name
  severity := l.severity
  check view := (l.channelObjection view).map fun v => v.or (l.otherObjection view)

def ofJson? (j : Json) : Option Limit := do
  match ← j.record? 4 ["name", "description", "severity", "max", "channel", "total", "clock"] with
  | [some name, description, some severity, some max, channel, total, clock] =>
    some
      { name := ← name.asText?
        description := ← Json.fieldOr "" Json.asText? description
        severity := ← Severity.ofJson? severity
        max := ← max.asWord?
        channel := ← Json.optional? ChannelKey.ofJson? channel
        total := ← Json.fieldOr false Json.asBool? total
        clock := ← Json.fieldOr false Json.asBool? clock }
  | _ => none

end Limit

end ActorLogic
