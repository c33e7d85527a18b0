import ActorLogic.Cli.Arguments
import ActorLogic.Cli.Error
import ActorLogic.Decimal.Fixed
import ActorLogic.Json.Reader
import ActorLogic.Metrics
import ActorLogic.Model.Counter
import ActorLogic.Model.ProducerConsumer
import ActorLogic.World.Run
/-!
# Simulating a model

The command that runs the world of a model once and reports the deliveries and their metrics.
-/

namespace ActorLogic.Cli

/-! ## Configuration -/

/-- The configuration that the text of a file holds. -/
def readConfig (path text : String) : Except CliError SimulationConfig :=
  match (Json.read? text).bind SimulationConfig.ofJson? with
  | some c => .ok c
  | none => .error (.malformed path)

/-- The configuration of a run: that of the file, with what the flags say put over it. -/
def SimulateOptions.loadConfig (o : SimulateOptions) (files : Files) :
    Except CliError SimulationConfig := do
  let c ← match o.config with
    | some path => readConfig path (← readFile files path)
    | none => .ok {}
  let c : SimulationConfig :=
    { c with seed := o.seed.getD c.seed, maxSteps := o.steps.getD c.maxSteps }
  match c.validate with
  | .ok () => .ok c
  | .error e => .error (.badWorld e)

/-! ## Reports -/

section

variable {P σ : Type} [Payload P] (w : World P σ) (outcome : RunOutcome)

def worldMetrics : RunMetrics := .ofEvents w.events.toList

/-- The lines of a report that all models share. -/
def reportLines : List String :=
  let m := worldMetrics w
  w.events.toList.map Event.display
    ++ ["seed " ++ toString w.seed.toNat ++ ": " ++ toString outcome.steps ++ " steps, "
          ++ (if outcome.quiescent then "quiescent" else "step limit reached"),
        toString m.total.deliveries ++ " deliveries, mean queue delay "
          ++ Decimal.twoPlaces m.total.mean ++ ", max " ++ toString m.total.maxDelay]
    ++ m.perAddress.map (fun (key, s) =>
        "  " ++ key ++ ": " ++ toString s.deliveries ++ " deliveries, mean delay "
          ++ Decimal.twoPlaces s.mean)
    ++ w.violations.toList.map (fun v => "violation " ++ v.display)
    ++ ["log digest " ++ m.digestHex]

def reportJson : Json :=
  .object
    [("seed", .int w.seed.toNat),
     ("outcome", .object [("steps", .int outcome.steps), ("quiescent", .bool outcome.quiescent)]),
     ("time", .int w.time), ("refused_sends", .int w.refusedSends),
     ("events", .list (w.events.toList.map Event.toJson)), ("metrics", (worldMetrics w).toJson)]

end

/-- What a command prints. -/
inductive Output where
  | lines (ls : List String)
  | json (j : Json)

/-- The line on what the consumer has received. -/
def receivedLine (w : World Nat Party) : String :=
  "consumer received [" ++ ", ".intercalate ((ProducerConsumer.received w).map toString) ++ "]"

/-- The line on a counter. -/
def counterLine (c : Counter) : String :=
  "counter x=" ++ toString c.value ++ " after " ++ toString c.increments ++ " increments and "
    ++ toString c.decrements ++ " decrements"

/-- Build a world, run it, and report on it; `last` gives the model's own lines. -/
def runSetup {P σ : Type} [Payload P] (setup : Setup P σ) (json : Bool) (fresh : UInt64)
    (last : World P σ → List String) : Except CliError Output := do
  let w ← (setup.build fresh).mapError .badWorld
  let (outcome, w) ← w.run.mapError .runFault
  pure (if json then .json (reportJson w outcome) else .lines (reportLines w outcome ++ last w))

/-- Simulate a model. `fresh` stands in for a seed of zero. -/
def SimulateOptions.simulate (o : SimulateOptions) (files : Files) (fresh : UInt64) :
    Except CliError Output := do
  let config ← o.loadConfig files
  match o.model with
  | .producerConsumer => do
    let setup ← (ProducerConsumer.allocate config o.messages o.capacity).mapError .memoryFault
    runSetup setup o.json fresh fun w => [receivedLine w]
  | .counter =>
    runSetup (Counter.standard config) o.json fresh fun w =>
      ((w.process? Counter.actor).map counterLine).toList

end ActorLogic.Cli
