import ActorLogic.Ctl.Evaluator
/-!
# Verdicts

A formula holds of a graph if every initial state satisfies it. A verdict also tells which states
satisfy the formula and which initial states do not.
-/

namespace ActorLogic

structure Verdict where
  formula : Formula
  satisfying : StateSet
  /-- The initial states that do not satisfy the formula, in the order of their registration. -/
  violating : List StateId
  traces : List FixpointTrace

/-- No initial state violates the formula. A graph without initial states satisfies every
formula. -/
def Verdict.holds (v : Verdict) : Bool := v.violating.isEmpty

/-- Judge a formula by the initial states of the graph. -/
def Verdict.judge (g : Graph) (f : Formula) : Except GraphFault Verdict := do
  let (set, traces) ← f.evaluate g
  pure ⟨f, set, g.initial.filter fun s => !set.contains s, traces⟩

/-- Every initial state satisfies the formula. -/
def Formula.holdsInitially (f : Formula) (g : Graph) : Except GraphFault Bool := do
  let set ← f.sat g
  pure (g.initial.all set.contains)

/-- The formula holds at the state of that name; there is no answer if no state has it. -/
def Formula.holdsAt (f : Formula) (g : Graph) (name : String) : Except GraphFault (Option Bool) :=
  match g.stateId? name with
  | none => pure none
  | some s => do pure (some ((← f.sat g).contains s))

end ActorLogic
