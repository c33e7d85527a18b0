import ActorLogic.Cli.Check
import ActorLogic.Cli.Simulate
/-!
# Running a command line

A command line, the files and a seed to use in place of zero decide what is printed and the exit
status: 0 if all went well, 1 if a formula fails, and that of the error if there was one.
-/

namespace ActorLogic.Cli

structure Outcome where
  status : Nat
  output : Output
  error : Option CliError := none

/-- Nothing is printed besides the error. -/
def Outcome.failure (e : CliError) : Outcome := ⟨e.status, .lines [], some e⟩

/-- The outcome of judging formulas. -/
def Outcome.ofReports (json : Bool) (reports : List FormulaReport) : Outcome where
  status := if reports.all (·.holds) then 0 else 1
  output :=
    if json then .json (.list (reports.map (·.toJson))) else .lines (reports.flatMap (·.lines))

def Command.run (files : Files) (fresh : UInt64) : Command → Outcome
  | .simulate o =>
    match o.simulate files fresh with
    | .ok output => ⟨0, output, none⟩
    | .error e => .failure e
  | .check o =>
    match o.check files with
    | .ok reports => .ofReports o.json reports
    | .error e => .failure e

/-- Run a command line. -/
def runArgs (args : List String) (files : Files) (fresh : UInt64) : Outcome :=
  match Command.ofArgs? args with
  | none => .failure .usage
  | some c => c.run files fresh

/-- The file that a command reads. -/
def Command.file? : Command → Option String
  | .simulate o => o.config
  | .check o => o.graph

/-- What is written to the standard output. -/
def Output.text : Output → String
  | .lines ls => String.join (ls.map (· ++ "\n"))
  | .json j => j.pretty ++ "\n"

end ActorLogic.Cli
