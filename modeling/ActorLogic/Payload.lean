import ActorLogic.Json.Basic
import ActorLogic.Text.Quoted
/-!
# Payloads

What messages carry. The simulation never looks at a payload; it only has to write it into reports
and to keep room for it in channels.
-/

namespace ActorLogic

/-- A type of payloads that can be reported. -/
class Payload (P : Type) where
  toJson : P → Json
  display : P → String
  /-- The bytes that a payload takes in a queue, in whole words of eight. -/
  bytes : Nat

instance : Payload Nat := ⟨fun n => .int n, fun n => toString n, 8⟩

instance : Payload Unit := ⟨fun _ => .null, fun _ => "()", 0⟩

/-- A payload of a scripted process: a whole number or a text. -/
inductive Datum where
  | int (n : Int)
  | text (s : String)
  deriving DecidableEq, Repr, Inhabited

def Datum.toJson : Datum → Json
  | .int n => .int n
  | .text s => .text s

/-- A text is shown in quotes. -/
def Datum.display : Datum → String
  | .int n => toString n
  | .text s => quotedText s

/-- Whole numbers are taken if they fit into a signed word of 64 bits. -/
def Datum.ofJson? : Json → Option Datum
  | .text s => some (.text s)
  | j => j.asInt?.map .int

instance : Payload Datum := ⟨Datum.toJson, Datum.display, 24⟩

end ActorLogic
