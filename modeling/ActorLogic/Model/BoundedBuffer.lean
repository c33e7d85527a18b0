import ActorLogic.Ctl.Formula.Basic
import ActorLogic.Graph.Basic
import ActorLogic.Memory
/-!
# The bounded buffer

A buffer with a capacity, seen as a graph: one state for each number of items in it, and edges that
put one item in or take one out. It begins empty.
-/

namespace ActorLogic.BoundedBuffer

/-! ## Labels -/

def producerReady : String := "producer_ready"

def consumerReady : String := "consumer_ready"

def bufferFull : String := "buffer_full"

def bufferEmpty : String := "buffer_empty"

/-- The state of a buffer that holds `size` items. -/
def stateName (size : Nat) : String := "buffer_" ++ toString size

/-- What is true of a buffer that holds `size` items. -/
def labels (capacity size : Nat) : List String :=
  (if size < capacity then [producerReady] else []) ++ (if 0 < size then [consumerReady] else [])
    ++ (if size = capacity then [bufferFull] else []) ++ (if size = 0 then [bufferEmpty] else [])

/-! ## The graph -/

/-- Add the states of a buffer that holds up to `capacity` items. -/
def addStates (capacity : Nat) (g : Graph) : Graph :=
  (List.range (capacity + 1)).foldl
    (fun g size => (g.addState (stateName size) (labels capacity size)).1) g

/-- Join a state and the next one in both directions. -/
def addPair (g : Graph) (size : Nat) : Graph := (g.link size (size + 1)).link (size + 1) size

def graph (capacity : Nat) : Graph :=
  ((List.range capacity).foldl addPair (addStates capacity .empty)).mark 0

/-- The bytes that the number of a state takes. -/
def stateBytes : Nat := 8

/-- The same, once there is room for a list of its states. -/
def allocate (capacity : Nat) : Except MemoryFault Graph :=
  (Memory.reserve (capacity + 1) stateBytes).map fun () => graph capacity

/-! ## Properties -/

/-- What is expected of a buffer, each property with a name. -/
def properties : List (String × Formula) :=
  [("can_fill", .ef (.atom bufferFull)),
   ("no_deadlock", .ag (.or (.atom producerReady) (.atom consumerReady))),
   ("always_drainable", .ag (.ef (.atom bufferEmpty)))]

end ActorLogic.BoundedBuffer
