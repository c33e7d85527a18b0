import ActorLogic.Address
import ActorLogic.Channel.Basic
import ActorLogic.Channel.Table
import ActorLogic.Cli.Arguments
import ActorLogic.Cli.Check
import ActorLogic.Cli.Error
import ActorLogic.Cli.Run
import ActorLogic.Cli.Simulate
import ActorLogic.Config
import ActorLogic.Ctl.Evaluator
import ActorLogic.Ctl.Fixpoint
import ActorLogic.Ctl.Formula.Basic
import ActorLogic.Ctl.Formula.Json
import ActorLogic.Ctl.Parser
import ActorLogic.Ctl.Predecessor
import ActorLogic.Ctl.Token
import ActorLogic.Ctl.Verdict
import ActorLogic.Decimal.Exact
import ActorLogic.Decimal.Fixed
import ActorLogic.Decimal.Scaled
import ActorLogic.Decimal.Shortest
import ActorLogic.Digest.Sha256
import ActorLogic.Event
import ActorLogic.Graph.Basic
import ActorLogic.Graph.Description
import ActorLogic.Graph.Fault
import ActorLogic.Invariant
import ActorLogic.Json.Basic
import ActorLogic.Json.Printer
import ActorLogic.Json.Reader
import ActorLogic.Main
import ActorLogic.Memory
import ActorLogic.Message
import ActorLogic.Metrics
import ActorLogic.Model.BoundedBuffer
import ActorLogic.Model.Counter
import ActorLogic.Model.Limit
import ActorLogic.Model.ProducerConsumer
import ActorLogic.Model.Script
import ActorLogic.Model.Script.Json
import ActorLogic.Payload
import ActorLogic.Proofs.Channel.Queue
import ActorLogic.Proofs.Channel.Table
import ActorLogic.Proofs.Ctl.Atoms
import ActorLogic.Proofs.Ctl.Bisimulation
import ActorLogic.Proofs.Ctl.Duality
import ActorLogic.Proofs.Ctl.Evaluation
import ActorLogic.Proofs.Ctl.Fixpoint
import ActorLogic.Proofs.Ctl.Grammar
import ActorLogic.Proofs.Ctl.Invariance
import ActorLogic.Proofs.Ctl.Parsing
import ActorLogic.Proofs.Ctl.Predecessor
import ActorLogic.Proofs.Ctl.Rendering
import ActorLogic.Proofs.Ctl.RoundTrip
import ActorLogic.Proofs.Graph.Consistency
import ActorLogic.Proofs.Graph.Facts
import ActorLogic.Proofs.Graph.WellFormed
import ActorLogic.Proofs.Result
import ActorLogic.Proofs.Memory
import ActorLogic.Proofs.StateSet.Counting
import ActorLogic.Proofs.StateSet.Iteration
import ActorLogic.Proofs.StateSet.Members
import ActorLogic.Proofs.World.Clock
import ActorLogic.Proofs.World.Delivery
import ActorLogic.Random.ChaCha
import ActorLogic.Random.Generator
import ActorLogic.StateSet
import ActorLogic.Text.Blank
import ActorLogic.Text.Quoted
import ActorLogic.Text.Sorted
import ActorLogic.Text.Visible
import ActorLogic.World.Action
import ActorLogic.World.Basic
import ActorLogic.World.Fault
import ActorLogic.World.Run
import ActorLogic.World.Turn
import ActorLogic.Proofs.StateSet.Commands
import ActorLogic.Proofs.StateSet.Refinement
import ActorLogic.Proofs.Graph.Drawing
import ActorLogic.Proofs.Graph.Description
import ActorLogic.Proofs.Ctl.Rearrangement
import ActorLogic.Proofs.Model.ProducerConsumer
import ActorLogic.Proofs.Model.BoundedBuffer
import ActorLogic.Proofs.Model.BufferSimulation
import ActorLogic.Proofs.Ctl.Rounds
import ActorLogic.Ctl.Statistics
import ActorLogic.Proofs.Ctl.Statistics
import ActorLogic.World.Slots
import ActorLogic.Proofs.World.Splitting
import ActorLogic.Proofs.World.Slots
import ActorLogic.Proofs.World.Calls
import ActorLogic.Proofs.World.Audit
import ActorLogic.Proofs.Json.Compact
import ActorLogic.Proofs.Digest.Sha256
import ActorLogic.Proofs.Metrics.Digest
import ActorLogic.Proofs.Metrics.Breakdown
import ActorLogic.Proofs.Metrics.Totals
import ActorLogic.Proofs.Model.BufferProperties
import ActorLogic.Proofs.Ctl.Beginnings
import ActorLogic.Proofs.Ctl.Errors
import ActorLogic.Proofs.Ctl.Reprinting
import ActorLogic.Proofs.World.Building
import ActorLogic.Proofs.World.Scheduling
import ActorLogic.Proofs.World.Waiting
import ActorLogic.Proofs.Graph.Reading
import ActorLogic.Proofs.Ctl.SteppingBack
import ActorLogic.Proofs.Ctl.Answers
import ActorLogic.Proofs.Ctl.Monotonicity
import ActorLogic.Proofs.Model.Counter
import ActorLogic.Proofs.Cli.Check
import ActorLogic.StateSet.Iterator
import ActorLogic.Proofs.StateSet.Calls
import ActorLogic.Proofs.Ctl.Extremes
import ActorLogic.Proofs.Ctl.Cutting
