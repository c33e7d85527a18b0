import ActorLogic.Ctl.Predecessor
/-!
# Fixpoints over sets of states

A least fixpoint grows from a target by the states that step back into it, a greatest one shrinks
from a start to the states that keep a step inside. All states that come or go in a round do so at
once. The first round looks at all states. A later one need not: a state whose successors all stayed
what they were steps back as it did before, so only the predecessors of the states that came or went
in the last round are near enough to matter.

Every round but the last changes the set, so that there are no more changing rounds than states; a
loop that went on would be a fault.
-/

namespace ActorLogic.Fixpoint

/-! ## Growing -/

/-- The state joins a growing set: it is not a member, lies within `hold` if a set is given, and
steps back into the set. -/
def joins (g : Graph) (kind : StepBack) (hold : Option StateSet) (current : StateSet)
    (s : StateId) : Except GraphFault Bool :=
  if !current.contains s && hold.all (·.contains s) then g.stepsInto kind current s
  else pure false

/-- Add states one by one. Those that were not there are put in front of `layer`. -/
def addLayer : List StateId → StateSet → List StateId →
    Except GraphFault (StateSet × List StateId)
  | [], set, layer => pure (set, layer)
  | s :: rest, set, layer => do
    let (set, isNew) ← set.insert s
    addLayer rest set (if isNew then s :: layer else layer)

/-- Add the states near by that join, until there are none. The first argument bounds the rounds,
`rounds` counts those that changed the set. -/
def grow (g : Graph) (kind : StepBack) (hold : Option StateSet) :
    Nat → Nat → StateSet → List StateId → Except GraphFault (StateSet × Nat)
  | 0, _, _, _ => .error .unsettled
  | fuel + 1, rounds, current, near => do
    let joining ← near.filterM (joins g kind hold current)
    if joining.isEmpty then pure (current, rounds)
    else
      let (next, layer) ← addLayer joining current []
      grow g kind hold fuel (rounds + 1) next (← g.predecessorsOf layer)

/-- The least set that contains the target and the states within `hold` that step back into it, and
the number of changing rounds. -/
def least (g : Graph) (kind : StepBack) (hold : Option StateSet) (target : StateSet) :
    Except GraphFault (StateSet × Nat) :=
  grow g kind hold (g.size + 1) 0 target g.states

/-! ## Shrinking -/

/-- The state leaves a shrinking set: it is a member and does not step back into the set. -/
def leaves (g : Graph) (kind : StepBack) (current : StateSet) (s : StateId) :
    Except GraphFault Bool :=
  if current.contains s then (g.stepsInto kind current s).map (!·) else pure false

/-- Take states away one by one. Those that were there are put in front of `layer`. -/
def dropLayer : List StateId → StateSet → List StateId →
    Except GraphFault (StateSet × List StateId)
  | [], set, layer => pure (set, layer)
  | s :: rest, set, layer => do
    let (set, present) ← set.remove s
    dropLayer rest set (if present then s :: layer else layer)

/-- Take the states near by that leave away, until there are none. -/
def shrink (g : Graph) (kind : StepBack) :
    Nat → Nat → StateSet → List StateId → Except GraphFault (StateSet × Nat)
  | 0, _, _, _ => .error .unsettled
  | fuel + 1, rounds, current, near => do
    let leaving ← near.filterM (leaves g kind current)
    if leaving.isEmpty then pure (current, rounds)
    else
      let (next, layer) ← dropLayer leaving current []
      shrink g kind fuel (rounds + 1) next (← g.predecessorsOf layer)

/-- The greatest part of the start whose states step back into it, and the number of changing
rounds. -/
def greatest (g : Graph) (kind : StepBack) (start : StateSet) :
    Except GraphFault (StateSet × Nat) :=
  shrink g kind (g.size + 1) 0 start g.states

end ActorLogic.Fixpoint
