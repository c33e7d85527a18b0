import ActorLogic.Graph.Basic
import ActorLogic.Json.Basic
/-!
# Descriptions of graphs

A graph written down by names: the states with their labels, the edges as pairs of names, the names
of the initial states. A description need not describe a graph, since names may be repeated or
unknown; the first fault in the order states, edges, initial states is reported.
-/

namespace ActorLogic

structure StateDescription where
  name : String
  labels : List String := []
  deriving DecidableEq, Repr

structure GraphDescription where
  states : List StateDescription
  edges : List (String × String) := []
  initial : List String := []
  deriving DecidableEq, Repr

/-! ## From a graph and back -/

/-- The description of a graph: its states in order, the edges grouped by source, the initial
states in the order of their registration. -/
def Graph.describe (g : Graph) : GraphDescription :=
  let name := fun s => g.names.getD s ""
  { states := g.states.map fun s => ⟨name s, g.labels.getD s []⟩
    edges := g.states.flatMap fun s => (g.succ.getD s []).map fun t => (name s, name t)
    initial := g.initial.map name }

namespace GraphDescription

/-- Add the described states; a name that is taken is an error. -/
def addStates (g : Graph) : List StateDescription → Except GraphError Graph
  | [] => .ok g
  | s :: rest =>
    match g.stateId? s.name with
    | some _ => .error (.duplicateState s.name)
    | none => addStates (g.addState s.name s.labels).1 rest

/-- The graph that a description describes. -/
def toGraph (d : GraphDescription) : Except GraphError Graph := do
  let g ← addStates .empty d.states
  let g ← d.edges.foldlM (fun g e => g.addEdgeByName e.1 e.2) g
  d.initial.foldlM (fun g name => (g.setInitial name).map (·.1)) g

/-! ## As JSON -/

/-- A list of exactly two texts. -/
def pair? : Json → Option (String × String)
  | .list [a, b] => do pure (← a.asText?, ← b.asText?)
  | _ => none

def state? (j : Json) : Option StateDescription := do
  match ← j.record? 1 ["name", "labels"] with
  | [some name, labels] => pure ⟨← name.asText?, ← Json.listOr? Json.asText? labels⟩
  | _ => none

def ofJson? (j : Json) : Option GraphDescription := do
  match ← j.record? 1 ["states", "edges", "initial"] with
  | [some states, edges, initial] =>
    pure ⟨← states.asListOf? state?, ← Json.listOr? pair? edges,
      ← Json.listOr? Json.asText? initial⟩
  | _ => none

def toJson (d : GraphDescription) : Json :=
  let texts := fun (l : List String) => Json.list (l.map .text)
  .object
    [("states", .list (d.states.map fun s =>
        .object [("name", .text s.name), ("labels", texts s.labels)])),
     ("edges", .list (d.edges.map fun e => .list [.text e.1, .text e.2])),
     ("initial", texts d.initial)]

end GraphDescription

end ActorLogic
