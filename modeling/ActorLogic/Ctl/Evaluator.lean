import ActorLogic.Ctl.Fixpoint
import ActorLogic.Ctl.Formula.Basic
/-!
# Evaluating formulas

The set of states that satisfy a formula, computed from the sets of its operands. Each operator that
is a fixpoint leaves a trace: how many rounds changed its set, and how many states are left in the
end. Traces stand in the order of evaluation, operands first and from left to right.
-/

namespace ActorLogic

/-- The operators that are computed as fixpoints. -/
inductive FixpointOp where
  | ef
  | af
  | eg
  | ag
  | eu
  | au
  deriving DecidableEq, Repr

/-- The operator grows from a target; the others shrink from a start. -/
def FixpointOp.isLeast : FixpointOp → Bool
  | .ef | .af | .eu | .au => true
  | .eg | .ag => false

/-- The operator as it stands in a formula. -/
def FixpointOp.display : FixpointOp → String
  | .ef => "EF"
  | .af => "AF"
  | .eg => "EG"
  | .ag => "AG"
  | .eu => "EU"
  | .au => "AU"

/-- The operator's name in a report. -/
def FixpointOp.name : FixpointOp → String
  | .ef => "Ef"
  | .af => "Af"
  | .eg => "Eg"
  | .ag => "Ag"
  | .eu => "Eu"
  | .au => "Au"

/-- What one fixpoint took. -/
structure FixpointTrace where
  operator : FixpointOp
  /-- Rounds that changed the set. -/
  rounds : Nat
  /-- States in the final set. -/
  resultSize : Nat
  deriving DecidableEq, Repr

/-- The most rounds that any of the fixpoints took. -/
def maxRounds (traces : List FixpointTrace) : Nat :=
  traces.foldl (fun m t => max m t.rounds) 0

def totalRounds (traces : List FixpointTrace) : Nat := traces.foldr (fun t n => t.rounds + n) 0

/-- A set of states, and the traces of the fixpoints behind it. -/
abbrev Traced := StateSet × List FixpointTrace

/-- Put the trace of an operator behind those of its operands. -/
def settle (op : FixpointOp) (before : List FixpointTrace) (found : StateSet × Nat) : Traced :=
  (found.1, before ++ [⟨op, found.2, found.1.card⟩])

/-- The states of the graph that satisfy a formula, and the traces of its fixpoints. -/
def Formula.evaluate (g : Graph) : Formula → Except GraphFault Traced
  | .top => pure (g.fullSet, [])
  | .bot => pure (g.emptySet, [])
  | .atom name => do pure (← g.statesWithLabel name, [])
  | .not f => do
    let (a, t) ← f.evaluate g
    pure (a.complement, t)
  | .and f h => do
    let (a, t) ← f.evaluate g
    let (b, u) ← h.evaluate g
    pure (← a.intersection b, t ++ u)
  | .or f h => do
    let (a, t) ← f.evaluate g
    let (b, u) ← h.evaluate g
    pure (← a.union b, t ++ u)
  | .ex f => do
    let (a, t) ← f.evaluate g
    pure (← g.preSome a, t)
  | .ax f => do
    let (a, t) ← f.evaluate g
    pure (← g.preEvery a, t)
  | .ef f => do
    let (a, t) ← f.evaluate g
    pure (settle .ef t (← Fixpoint.least g .some none a))
  | .af f => do
    let (a, t) ← f.evaluate g
    pure (settle .af t (← Fixpoint.least g .every none a))
  | .eg f => do
    let (a, t) ← f.evaluate g
    pure (settle .eg t (← Fixpoint.greatest g .some a))
  | .ag f => do
    let (a, t) ← f.evaluate g
    pure (settle .ag t (← Fixpoint.greatest g .every a))
  | .eu f h => do
    let (a, t) ← f.evaluate g
    let (b, u) ← h.evaluate g
    pure (settle .eu (t ++ u) (← Fixpoint.least g .some (some a) b))
  | .au f h => do
    let (a, t) ← f.evaluate g
    let (b, u) ← h.evaluate g
    pure (settle .au (t ++ u) (← Fixpoint.least g .every (some a) b))

/-- The states of the graph that satisfy a formula. -/
def Formula.sat (f : Formula) (g : Graph) : Except GraphFault StateSet :=
  (f.evaluate g).map (·.1)

/-! ## Evaluating several formulas -/

/-- A graph, and the traces of all the formulas evaluated on it so far. -/
structure Evaluator where
  graph : Graph
  traces : List FixpointTrace := []

/-- Evaluate one more formula. -/
def Evaluator.sat (e : Evaluator) (f : Formula) : Except GraphFault (StateSet × Evaluator) := do
  let (set, traces) ← f.evaluate e.graph
  pure (set, { e with traces := e.traces ++ traces })

end ActorLogic
