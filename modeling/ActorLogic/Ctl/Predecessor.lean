import ActorLogic.Graph.Basic
/-!
# Predecessors of a set

The two ways to step back from a set of states: to the states with some successor in it, and to the
states with every successor in it. A state without successors is of the second kind for every set.
-/

namespace ActorLogic

/-- How a state has to be joined to a set in order to step back from it. -/
inductive StepBack where
  /-- Some successor is in the set. -/
  | some
  /-- Every successor is in the set. -/
  | every
  deriving DecidableEq, Repr

namespace Graph

/-- The predecessors of the listed states, each once for every edge. -/
def predecessorsOf (g : Graph) (states : List StateId) : Except GraphFault (List StateId) := do
  pure (← states.mapM g.predecessors).flatten

/-- The state has a successor in the target, or every successor, read off the successor list. -/
def stepsInto (g : Graph) (kind : StepBack) (target : StateSet) (s : StateId) :
    Except GraphFault Bool :=
  (g.successors s).map fun next =>
    match kind with
    | .some => next.any target.contains
    | .every => next.all target.contains

/-- The states with some successor in the target, collected from the predecessor lists. -/
def preSome (g : Graph) (target : StateSet) : Except GraphFault StateSet := do
  g.setOf (← g.predecessorsOf target.toList)

/-- The states with every successor in the target, read off the successor lists. -/
def preEvery (g : Graph) (target : StateSet) : Except GraphFault StateSet := do
  g.setOf (← g.states.filterM (g.stepsInto .every target))

end Graph

end ActorLogic
