/-!
# Floating-point numbers as exact fractions

A finite double is `significand * 2 ^ exponent`. Decimal texts of doubles are chosen by exact
arithmetic on this fraction.
-/

namespace ActorLogic.Decimal

/-- A non-negative number `significand * 2 ^ exponent`. -/
structure Dyadic where
  significand : Nat
  exponent : Int
  deriving DecidableEq, Repr

/-- The magnitude of a finite double. -/
def Dyadic.ofFloat (x : Float) : Dyadic :=
  let bits : Nat := x.toBits.toNat
  let fraction : Nat := bits % 1 <<< 52
  let biased : Nat := bits / 1 <<< 52 % 1 <<< 11
  if biased = 0 then ⟨fraction, -1074⟩
  else ⟨1 <<< 52 + fraction, (biased : Int) - 1075⟩

def Dyadic.numerator (d : Dyadic) : Nat := d.significand <<< d.exponent.toNat

def Dyadic.denominator (d : Dyadic) : Nat := 1 <<< (-d.exponent).toNat

/-- The sign bit is set. -/
def isNegative (x : Float) : Bool := x.toBits.toNat / 1 <<< 63 = 1

/-- `n / d` rounded to the nearest whole number, a half to the even neighbour. -/
def roundHalfEven (n d : Nat) : Nat :=
  let q := n / d
  let r := n % d
  if 2 * r < d then q
  else if d < 2 * r then q + 1
  else if q % 2 = 0 then q else q + 1

end ActorLogic.Decimal
