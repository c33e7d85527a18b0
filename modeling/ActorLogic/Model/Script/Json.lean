import ActorLogic.Model.Script
/-!
# Reading scripts

Scripted processes, and the members of a scripted world, from their JSON form.
-/

namespace ActorLogic

def Comparison.ofSign? : String → Option Comparison
  | "<" => some .lt
  | "<=" => some .le
  | "==" => some .eq
  | "!=" => some .ne
  | ">=" => some .ge
  | ">" => some .gt
  | _ => none

def Comparison.ofJson? (j : Json) : Option Comparison := do
  let (sign, content) ← j.case?
  if Json.isBare content then ofSign? sign else none

def Condition.ofJson? (j : Json) : Option Condition := do
  match j with
  | .object [("can_send", key)] => (ChannelKey.ofJson? key).map .canSend
  | .object [("can_recv", key)] => (ChannelKey.ofJson? key).map .canReceive
  | .object [("len", .list [key, c, n])] =>
    some (.length (← ChannelKey.ofJson? key) (← Comparison.ofJson? c) (← n.asInt?))
  | .object [("var", .list [index, c, n])] =>
    some (.var (← index.asWord?) (← Comparison.ofJson? c) (← n.asInt?))
  | .object [("time", .list [c, n])] => some (.time (← Comparison.ofJson? c) (← n.asInt?))
  | .object [("time_mod", .list [modulus, remainder])] =>
    some (.timeMod (← modulus.asWord?) (← remainder.asWord?))
  | .object [("known", a)] => (Address.ofJson? a).map .known
  | _ => none

def Source.ofJson? (j : Json) : Option Source := do
  match ← j.case? with
  | ("const", some d) => (Datum.ofJson? d).map .const
  | ("var", some index) => index.asWord?.map .var
  | ("last", content) => if Json.isBare content then some .last else none
  | _ => none

def Instruction.ofJson? (j : Json) : Option Instruction := do
  match j with
  | .object [("send", j)] =>
    some (.send (← Json.optional? Address.ofJson? (j.get? "to"))
      (← Source.ofJson? (← j.get? "payload")) (← Json.optional? Address.ofJson? (j.get? "reply_to"))
      (← Json.optional? Json.asWord? (j.get? "count")))
  | .object [("recv", key)] => (ChannelKey.ofJson? key).map .receive
  | .object [("add", .list [index, n])] => some (.add (← index.asWord?) (← n.asInt?))
  | .object [("look", key)] => (ChannelKey.ofJson? key).map .look
  | _ => none

def Rule.ofJson? (j : Json) : Option Rule := do
  match ← j.record? 1 ["label", "when", "do"] with
  | [some label, conditions, instructions] =>
    pure ⟨← label.asText?, ← Json.listOr? Condition.ofJson? conditions,
      ← Json.listOr? Instruction.ofJson? instructions⟩
  | _ => none

def Scripted.ofJson? (j : Json) : Option Scripted := do
  match ← j.record? 1 ["id", "vars", "rules"] with
  | [some id, vars, rules] =>
    some
      { id := ← id.asText?
        rules := ← Json.listOr? Rule.ofJson? rules
        vars := (← Json.listOr? Json.asInt? vars).toArray }
  | _ => none

/-- A counter is given by its start and its maximum, anything else is a script. -/
def Member.processOfJson? (j : Json) : Option (Process Member) :=
  match j.get? "counter" with
  | some (.list [start, max]) => do
    some ⟨Counter.actor, .counter (.new (← start.asInt?) (← max.asInt?))⟩
  | some _ => none
  | none => (Scripted.ofJson? j).map fun s => ⟨s.id, .script s⟩

end ActorLogic
