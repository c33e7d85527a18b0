import Std.Data.HashMap
import ActorLogic.StateSet
import ActorLogic.Text.Sorted
/-!
# Labelled graphs

A finite transition graph: named states, a set of labels at each, edges, and initial states. States
are numbered in the order of their insertion, and labels, successors and predecessors stand in
arrays under that number. The predecessor lists are the successor lists turned round.
-/

namespace ActorLogic

structure Graph where
  names : Array String := #[]
  index : Std.HashMap String StateId := ∅
  /-- The labels of each state, sorted. -/
  labels : Array (List String) := #[]
  /-- The successors of each state, in the order of the edges. -/
  succ : Array (List StateId) := #[]
  /-- The predecessors of each state, in the order of the edges. -/
  pred : Array (List StateId) := #[]
  initial : List StateId := []
  edgeCount : Nat := 0

/-- What is wrong with a name that a graph is built from. -/
inductive GraphError where
  | unknownState (name : String)
  | duplicateState (name : String)
  deriving DecidableEq, Repr

/-- The text of an error. -/
def GraphError.message : GraphError → String
  | .unknownState name => "Unknown state: " ++ name
  | .duplicateState name => "Duplicate state in graph description: " ++ name

namespace Graph

/-- The graph without states. -/
def empty : Graph := {}

def size (g : Graph) : Nat := g.names.size

def isEmpty (g : Graph) : Bool := g.size == 0

def states (g : Graph) : List StateId := List.range g.size

def stateId? (g : Graph) (name : String) : Option StateId := g.index[name]?

/-- A name that has to belong to a state. -/
def lookup (g : Graph) (name : String) : Except GraphError StateId :=
  match g.stateId? name with
  | some s => .ok s
  | none => .error (.unknownState name)

/-- A state that has to belong to the graph. -/
def check (g : Graph) (s : StateId) : Except GraphFault Unit :=
  if s < g.size then .ok () else .error (.foreignState s g.size)

/-! ## Building -/

/-- Add a state. A name that is taken gives its state, whose labels stay as they are. -/
def addState (g : Graph) (name : String) (labels : List String) : Graph × StateId :=
  match g.stateId? name with
  | some s => (g, s)
  | none =>
    let s := g.size
    ({ g with
        names := g.names.push name
        index := g.index.insert name s
        labels := g.labels.push (sortedTexts labels)
        succ := g.succ.push []
        pred := g.pred.push [] }, s)

/-- Draw an edge between two states of the graph, unless it is there. -/
def link (g : Graph) (source target : StateId) : Graph :=
  if (g.succ.getD source []).contains target then g
  else
    { g with
      succ := g.succ.modify source (· ++ [target])
      pred := g.pred.modify target (· ++ [source])
      edgeCount := g.edgeCount + 1 }

/-- Note a state of the graph as initial, unless it is noted. -/
def mark (g : Graph) (s : StateId) : Graph :=
  if g.initial.contains s then g else { g with initial := g.initial ++ [s] }

def addEdge (g : Graph) (source target : StateId) : Except GraphFault Graph := do
  g.check source
  g.check target
  pure (g.link source target)

def addEdgeByName (g : Graph) (source target : String) : Except GraphError Graph := do
  let s ← g.lookup source
  let t ← g.lookup target
  pure (g.link s t)

def markInitial (g : Graph) (s : StateId) : Except GraphFault Graph := do
  g.check s
  pure (g.mark s)

def setInitial (g : Graph) (name : String) : Except GraphError (Graph × StateId) := do
  let s ← g.lookup name
  pure (g.mark s, s)

/-! ## Questions about a state -/

/-- The entry of a state in one of the arrays. -/
def entry {α : Type} (table : Array α) (s : StateId) : Except GraphFault α :=
  match table[s]? with
  | some a => .ok a
  | none => .error (.noSuchState s)

def successors (g : Graph) (s : StateId) : Except GraphFault (List StateId) := entry g.succ s

def predecessors (g : Graph) (s : StateId) : Except GraphFault (List StateId) := entry g.pred s

def labelsOf (g : Graph) (s : StateId) : Except GraphFault (List String) := entry g.labels s

def hasLabel (g : Graph) (s : StateId) (label : String) : Except GraphFault Bool :=
  (entry g.labels s).map (·.contains label)

def nameOf (g : Graph) (s : StateId) : Except GraphFault String := entry g.names s

/-! ## Sets of states -/

def emptySet (g : Graph) : StateSet := .empty g.size

def fullSet (g : Graph) : StateSet := .full g.size

def setOf (g : Graph) (states : List StateId) : Except GraphFault StateSet :=
  StateSet.ofList g.size states

def initialStates (g : Graph) : Except GraphFault StateSet := g.setOf g.initial

/-- The states that carry the label. -/
def statesWithLabel (g : Graph) (label : String) : Except GraphFault StateSet := do
  g.setOf (← g.states.filterM (g.hasLabel · label))

/-- The names of the members, in the order of the states. -/
def namesOf (g : Graph) (set : StateSet) : Except GraphFault (List String) :=
  set.toList.mapM g.nameOf

end Graph

end ActorLogic
