import ActorLogic.Event
import ActorLogic.Digest.Sha256
/-!
# Metrics of a delivery log

A collector takes the events of a log one by one and can be summarised at any time: how many there
were, how long their messages had waited, in all and for each receiving channel, and a digest of the
log as it is written. Receiving channels are told apart by their addresses as shown.
-/

namespace ActorLogic

/-! ## Delays -/

/-- Counts over some deliveries. -/
structure DelayStats where
  deliveries : Nat := 0
  totalDelay : Nat := 0
  maxDelay : Nat := 0
  deriving DecidableEq, Repr

namespace DelayStats

def record (s : DelayStats) (delay : Nat) : DelayStats :=
  ⟨s.deliveries + 1, s.totalDelay + delay, max s.maxDelay delay⟩

/-- The mean delay, and zero if there were no deliveries. -/
def mean (s : DelayStats) : Float :=
  if s.deliveries = 0 then 0 else Float.ofNat s.totalDelay / Float.ofNat s.deliveries

def toJson (s : DelayStats) : Json :=
  .object
    [("deliveries", .int s.deliveries), ("total_queue_delay", .int s.totalDelay),
     ("max_queue_delay", .int s.maxDelay)]

end DelayStats

/-- Counts by address as shown, in the order of the texts. -/
abbrev DelayTable := List (String × DelayStats)

namespace DelayTable

/-- Record a delay under a text. -/
def record (key : String) (delay : Nat) : DelayTable → DelayTable
  | [] => [(key, DelayStats.record {} delay)]
  | (k, s) :: rest =>
    if key < k then (key, DelayStats.record {} delay) :: (k, s) :: rest
    else if key = k then (k, s.record delay) :: rest
    else (k, s) :: record key delay rest

end DelayTable

/-! ## Summaries -/

structure RunMetrics where
  total : DelayStats
  firstDelivery : Option Nat
  lastDelivery : Option Nat
  perAddress : DelayTable
  /-- The digest of the written log. -/
  digest : List UInt8
  deriving DecidableEq, Repr

namespace RunMetrics

def digestHex (m : RunMetrics) : String := Sha256.hex m.digest

def tickJson : Option Nat → Json
  | none => .null
  | some t => .int t

def toJson (m : RunMetrics) : Json :=
  .object
    [("deliveries", .int m.total.deliveries), ("first_delivery", tickJson m.firstDelivery),
     ("last_delivery", tickJson m.lastDelivery), ("mean_queue_delay", .real m.total.mean),
     ("max_queue_delay", .int m.total.maxDelay),
     ("per_address", .object (m.perAddress.map fun (key, s) => (key, s.toJson))),
     ("digest", .list (m.digest.map fun b => .int b.toNat))]

end RunMetrics

/-! ## Collectors -/

structure Collector where
  /-- Has taken the log as it is written, line by line. -/
  hasher : Sha256.Hasher := {}
  total : DelayStats := {}
  firstDelivery : Option Nat := none
  lastDelivery : Option Nat := none
  perAddress : DelayTable := []

namespace Collector

variable {P : Type} [Payload P]

/-- Take the next event of the log. -/
def record (c : Collector) (e : Event P) : Collector where
  hasher := c.hasher.absorb e.line.toUTF8
  total := c.total.record e.queueDelay
  firstDelivery := c.firstDelivery.or (some e.time)
  lastDelivery := some e.time
  perAddress := c.perAddress.record e.target.display e.queueDelay

def recordAll (c : Collector) (events : List (Event P)) : Collector := events.foldl record c

/-- The summary of what was recorded so far. -/
def summary (c : Collector) : RunMetrics :=
  ⟨c.total, c.firstDelivery, c.lastDelivery, c.perAddress, c.hasher.digest⟩

end Collector

/-- The summary of a whole log. -/
def RunMetrics.ofEvents {P : Type} [Payload P] (events : List (Event P)) : RunMetrics :=
  (Collector.recordAll {} events).summary

end ActorLogic
