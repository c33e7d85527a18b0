import ActorLogic.Ctl.Evaluator
/-!
# Statistics along the way

The evaluator with its statistics in hand: it goes through a formula, operands first and from left to
right, and writes a trace down whenever a fixpoint is reached. A round of a fixpoint steps back from
the whole set. The loop itself does not count down: it ends with the first round that changes nothing,
and a limit on its rounds can be as large as one likes. That there were no more changing rounds than
states is checked where the trace is written down.
-/

namespace ActorLogic

/-- The states that step back from the target. -/
def Graph.pre (g : Graph) (kind : StepBack) (target : StateSet) : Except GraphFault StateSet :=
  match kind with
  | .some => g.preSome target
  | .every => g.preEvery target

namespace Fixpoint

/-- The states within `hold`, if a set is given, that step back into the set. -/
def frontier (g : Graph) (kind : StepBack) (hold : Option StateSet) (current : StateSet) :
    Except GraphFault StateSet := do
  let back ← g.pre kind current
  match hold with
  | none => pure back
  | some hold => back.intersection hold

/-- Join the frontier to the set, and tell whether that changes it. -/
def growRound (g : Graph) (kind : StepBack) (hold : Option StateSet) (current : StateSet) :
    Except GraphFault (StateSet × Bool) := do
  current.unionWith (← frontier g kind hold current)

/-- Keep the states that step back into the set, and tell whether that changes it. -/
def shrinkRound (g : Graph) (kind : StepBack) (current : StateSet) :
    Except GraphFault (StateSet × Bool) := do
  current.intersectWith (← g.pre kind current)

/-- Repeat a round until it changes nothing, and count the rounds before. -/
def repeatRound (round : StateSet → Except GraphFault (StateSet × Bool)) :
    Nat → Nat → StateSet → Except GraphFault (StateSet × Nat)
  | 0, _, _ => .error .unsettled
  | limit + 1, rounds, current => do
    let (next, changed) ← round current
    if changed then repeatRound round limit (rounds + 1) next else pure (next, rounds)

end Fixpoint

namespace Evaluator

open Fixpoint

/-- Write down what a fixpoint took. No fixpoint takes more rounds than the graph has states. -/
def record (e : Evaluator) (op : FixpointOp) (found : StateSet × Nat) :
    Except GraphFault (StateSet × Evaluator) :=
  if found.2 ≤ e.graph.size then
    .ok (found.1, { e with traces := e.traces ++ [⟨op, found.2, found.1.card⟩] })
  else .error .unsettled

def grow (limit : Nat) (op : FixpointOp) (kind : StepBack) (hold : Option StateSet)
    (target : StateSet) (e : Evaluator) : Except GraphFault (StateSet × Evaluator) := do
  e.record op (← repeatRound (growRound e.graph kind hold) limit 0 target)

def shrink (limit : Nat) (op : FixpointOp) (kind : StepBack) (start : StateSet)
    (e : Evaluator) : Except GraphFault (StateSet × Evaluator) := do
  e.record op (← repeatRound (shrinkRound e.graph kind) limit 0 start)

/-- Evaluate a formula. No loop is given more rounds than the limit. -/
def run (limit : Nat) : Formula → Evaluator → Except GraphFault (StateSet × Evaluator)
  | .top, e => pure (e.graph.fullSet, e)
  | .bot, e => pure (e.graph.emptySet, e)
  | .atom name, e => do pure (← e.graph.statesWithLabel name, e)
  | .not f, e => do
    let (a, e) ← run limit f e
    pure (a.complement, e)
  | .and f h, e => do
    let (a, e) ← run limit f e
    let (b, e) ← run limit h e
    pure (← a.intersection b, e)
  | .or f h, e => do
    let (a, e) ← run limit f e
    let (b, e) ← run limit h e
    pure (← a.union b, e)
  | .ex f, e => do
    let (a, e) ← run limit f e
    pure (← e.graph.pre .some a, e)
  | .ax f, e => do
    let (a, e) ← run limit f e
    pure (← e.graph.pre .every a, e)
  | .ef f, e => do
    let (a, e) ← run limit f e
    e.grow limit .ef .some none a
  | .af f, e => do
    let (a, e) ← run limit f e
    e.grow limit .af .every none a
  | .eg f, e => do
    let (a, e) ← run limit f e
    e.shrink limit .eg .some a
  | .ag f, e => do
    let (a, e) ← run limit f e
    e.shrink limit .ag .every a
  | .eu f h, e => do
    let (a, e) ← run limit f e
    let (b, e) ← run limit h e
    e.grow limit .eu .some (some a) b
  | .au f h, e => do
    let (a, e) ← run limit f e
    let (b, e) ← run limit h e
    e.grow limit .au .every (some a) b

/-- Evaluate formulas one after the other on one evaluator. -/
def evaluateAll (step : Formula → Evaluator → Except GraphFault (StateSet × Evaluator)) :
    List Formula → Evaluator → Except GraphFault (List StateSet × Evaluator)
  | [], e => pure ([], e)
  | f :: rest, e => do
    let (set, e) ← step f e
    let (sets, e) ← evaluateAll step rest e
    pure (set :: sets, e)

end Evaluator

end ActorLogic
