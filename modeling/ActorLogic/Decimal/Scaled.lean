/-!
# Doubles from digits and a scale

`Decimal.scaled?` reads a decimal in two roundings: the digits are rounded to a double, and the
double is multiplied or divided by a power of ten. Digits up to 2 ^ 53 and powers up to 10 ^ 22 are
doubles themselves, and then the nearest double comes out. Beyond them it may be the one next to it.
-/

namespace ActorLogic.Decimal

/-- The scale of the greatest power of ten that is below the greatest double. -/
def maxScale : Nat := 308

/-- The double nearest to `10 ^ k`. -/
def powerOfTen (k : Nat) : Float := Float.ofScientific 1 false k

/-- A double for `digits * 10 ^ scale`, if the digits fit into 64 bits and neither the power nor the
product is too great for a double. -/
def scaled? (digits : Nat) (scale : Int) : Option Float :=
  if digits < 1 <<< 64 ∧ scale.natAbs ≤ maxScale then
    let power := powerOfTen scale.natAbs
    let x := if scale < 0 then Float.ofNat digits / power else Float.ofNat digits * power
    if x.isFinite then some x else none
  else none

end ActorLogic.Decimal
