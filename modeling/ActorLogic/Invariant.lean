import ActorLogic.Channel.Table
/-!
# Invariants of a world

An invariant looks at the clock and the channels after a step and may object. Every objection is
recorded with the tick, the invariant's name and its severity.
-/

namespace ActorLogic

/-! ## Severity -/

inductive Severity where
  | info
  | warning
  | high
  | critical
  deriving DecidableEq, Repr

namespace Severity

def display : Severity → String
  | .info => "INFO"
  | .warning => "WARNING"
  | .high => "HIGH"
  | .critical => "CRITICAL"

def name : Severity → String
  | .info => "Info"
  | .warning => "Warning"
  | .high => "High"
  | .critical => "Critical"

/-- The place in the order of severities. -/
def rank : Severity → Nat
  | .info => 0
  | .warning => 1
  | .high => 2
  | .critical => 3

instance : Ord Severity := ⟨fun a b => compare a.rank b.rank⟩

def ofName? : String → Option Severity
  | "Info" => some .info
  | "Warning" => some .warning
  | "High" => some .high
  | "Critical" => some .critical
  | _ => none

def ofJson? (j : Json) : Option Severity := do
  let (name, content) ← j.case?
  if Json.isBare content then ofName? name else none

end Severity

/-! ## Objections -/

/-- What an invariant objects to. -/
inductive Violation where
  | capacityExceeded (address : Address) (length capacity : Nat)
  | custom (name description : String)
  deriving DecidableEq, Repr

namespace Violation

def display : Violation → String
  | .capacityExceeded a length capacity =>
    "Channel " ++ a.display ++ " holds " ++ toString length ++ " messages, capacity "
      ++ toString capacity
  | .custom name description => name ++ ": " ++ description

def toJson : Violation → Json
  | .capacityExceeded a length capacity =>
    .object [("CapacityExceeded",
      .object [("address", a.toJson), ("len", .int length), ("capacity", .int capacity)])]
  | .custom name description =>
    .object [("Custom", .object [("name", .text name), ("description", .text description)])]

end Violation

/-- An objection with its circumstances. -/
structure RecordedViolation where
  time : Nat
  invariant : String
  severity : Severity
  violation : Violation
  deriving DecidableEq, Repr

namespace RecordedViolation

def display (r : RecordedViolation) : String :=
  "[t=" ++ toString r.time ++ "] " ++ r.severity.display ++ " " ++ r.invariant ++ ": "
    ++ r.violation.display

def toJson (r : RecordedViolation) : Json :=
  .object
    [("time", .int r.time), ("invariant", .text r.invariant), ("severity", .text r.severity.name),
     ("violation", r.violation.toJson)]

end RecordedViolation

/-! ## Invariants -/

/-- What processes and invariants see of a world. -/
structure WorldView (P : Type) where
  time : Nat
  channels : ChannelTable P

structure Invariant (P : Type) where
  name : String
  severity : Severity
  /-- The objection to a view, if there is one. -/
  check : WorldView P → Except RunFault (Option Violation)

/-- No channel holds more than its capacity. Every world has this invariant. -/
def Invariant.channelCapacity (P : Type) : Invariant P where
  name := "ChannelCapacity"
  severity := .critical
  check view :=
    .ok <| (view.channels.channels.toList.find? fun c => c.capacity < c.length).map fun c =>
      .capacityExceeded c.address c.length c.capacity

end ActorLogic
