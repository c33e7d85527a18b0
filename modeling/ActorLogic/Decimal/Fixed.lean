import ActorLogic.Decimal.Exact
/-!
# Two decimal places

Mean delays are shown with two places. The exact value of the double is rounded, and a half goes to
the even neighbour: 4.375 is shown as 4.38 and 6.125 as 6.12.
-/

namespace ActorLogic.Decimal

/-- A count of hundredths, written with a point and two places. -/
def hundredths (n : Nat) : String :=
  let cents := n % 100
  toString (n / 100) ++ "." ++ (if cents < 10 then "0" else "") ++ toString cents

/-- A non-negative finite double with two places. -/
def twoPlaces (x : Float) : String :=
  let d := Dyadic.ofFloat x
  hundredths (roundHalfEven (100 * d.numerator) d.denominator)

end ActorLogic.Decimal
