import ActorLogic.Cli.Arguments
import ActorLogic.Cli.Error
import ActorLogic.Ctl.Parser
import ActorLogic.Ctl.Verdict
import ActorLogic.Graph.Description
import ActorLogic.Json.Reader
import ActorLogic.Model.BoundedBuffer
/-!
# Checking formulas

The command that judges formulas by the initial states of a graph. Formulas are read before the
graph, so of two faults the one in a formula is reported.
-/

namespace ActorLogic.Cli

/-! ## Formulas -/

/-- A formula, and the name that the report calls it by. -/
abbrev Property := String × Formula

/-- A formula of the command line, called by its text. -/
def readProperty (text : String) : Except CliError Property :=
  match Formula.parse text with
  | .ok f => .ok (text, f)
  | .error e => .error (.badFormula text e)

/-- The formulas to judge. Without any, the model's own properties are judged; a graph from a file
has none. -/
def CheckOptions.properties (o : CheckOptions) : Except CliError (List Property) :=
  match o.formulas, o.graph with
  | [], some _ => .error .missingFormula
  | [], none => .ok BoundedBuffer.properties
  | texts, _ => texts.mapM readProperty

/-! ## Graphs -/

/-- The graph that the text of a file describes. A graph that does not hang together is reported
even if the text goes on behind it. -/
def readGraph (path text : String) : Except CliError Graph :=
  match Json.readValue? text with
  | none => .error (.malformed path)
  | some (j, rest) =>
    match GraphDescription.ofJson? j with
    | none => .error (.malformed path)
    | some d =>
      match d.toGraph with
      | .error e => .error (.badGraph path e)
      | .ok g => if Json.atEnd rest then .ok g else .error (.malformed path)

/-- The graph to judge by. -/
def CheckOptions.loadGraph (o : CheckOptions) (files : Files) : Except CliError Graph :=
  match o.graph with
  | some path => do readGraph path (← readFile files path)
  | none =>
    if o.capacity = 0 then .error .zeroCapacity
    else (BoundedBuffer.allocate o.capacity).mapError .memoryFault

/-! ## Reports -/

structure FormulaReport where
  formula : String
  holds : Bool
  satisfying : List String
  /-- The initial states that do not satisfy the formula. -/
  violating : List String
  /-- The rounds of all fixpoints. -/
  rounds : Nat
  deriving DecidableEq, Repr

namespace FormulaReport

def toJson (r : FormulaReport) : Json :=
  .object
    [("formula", .text r.formula), ("holds", .bool r.holds),
     ("satisfying", .list (r.satisfying.map .text)),
     ("violating_initial", .list (r.violating.map .text)), ("fixpoint_rounds", .int r.rounds)]

def lines (r : FormulaReport) : List String :=
  [(if r.holds then "holds  " else "FAILS  ") ++ r.formula,
   "       satisfied at: " ++ ", ".intercalate r.satisfying]
  ++ if r.holds then []
     else ["       violated at initial: " ++ ", ".intercalate r.violating]

/-- The report on one formula. -/
def judge (g : Graph) (p : Property) : Except GraphFault FormulaReport := do
  let v ← Verdict.judge g p.2
  pure
    { formula := p.1
      holds := v.holds
      satisfying := ← g.namesOf v.satisfying
      violating := ← v.violating.mapM g.nameOf
      rounds := totalRounds v.traces }

end FormulaReport

/-- The reports on all formulas, in their order. -/
def CheckOptions.check (o : CheckOptions) (files : Files) :
    Except CliError (List FormulaReport) := do
  let properties ← o.properties
  let g ← o.loadGraph files
  (properties.mapM (FormulaReport.judge g)).mapError .graphFault

end ActorLogic.Cli
