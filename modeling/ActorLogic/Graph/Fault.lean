/-!
# Faults of graphs and state sets

A caller that hands over a state of another graph, or joins sets of different graphs, breaks the
contract of these types. The operation then stops with a fault and changes nothing.
-/

namespace ActorLogic

/-- States are numbered in the order of their insertion. -/
abbrev StateId := Nat

/-- How a state is shown. -/
def StateId.display (s : StateId) : String := "s" ++ toString s

/-- Why an operation on states stopped. -/
inductive GraphFault where
  /-- A state that a set over `universe` states cannot hold. -/
  | outsideSet (state : StateId) (size : Nat)
  /-- Two sets over different numbers of states. -/
  | differentUniverses
  /-- A state that a graph of `size` states does not have. -/
  | foreignState (state : StateId) (size : Nat)
  /-- A question about a state that is not there. -/
  | noSuchState (state : StateId)
  /-- A fixpoint that still changes after one round per state. -/
  | unsettled
  deriving DecidableEq, Repr

/-- The text of a fault. -/
def GraphFault.message : GraphFault → String
  | .outsideSet s n =>
    "state " ++ s.display ++ " is outside a set over " ++ toString n ++ " states"
  | .differentUniverses => "state sets belong to graphs of different sizes"
  | .foreignState s n =>
    "state " ++ s.display ++ " does not belong to this graph of " ++ toString n ++ " states"
  | .noSuchState s => "no state " ++ s.display
  | .unsettled => "fixpoint does not settle"

end ActorLogic
