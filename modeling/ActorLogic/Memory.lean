/-!
# Room in memory

Room for many items is reserved in one block, before the first of them is made. A block that is too
large is refused at once. A smaller one is always to be had: how much memory there is plays no part.
-/

namespace ActorLogic

/-- Why there is no room. -/
inductive MemoryFault where
  /-- The items would take more bytes than a block of memory can have. -/
  | capacityOverflow
  deriving DecidableEq, Repr

/-- The text of a fault. -/
def MemoryFault.message : MemoryFault → String
  | .capacityOverflow => "capacity overflow"

/-- Reserve room for so many items of so many bytes each. No block of memory has `2 ^ 63` bytes. -/
def Memory.reserve (items bytes : Nat) : Except MemoryFault Unit :=
  if items * bytes < 1 <<< 63 then .ok () else .error .capacityOverflow

end ActorLogic
