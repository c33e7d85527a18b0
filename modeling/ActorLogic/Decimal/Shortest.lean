import ActorLogic.Decimal.Exact
/-!
# Shortest decimal text

The fewest digits that read back as the same double, and of those the nearest. A JSON report writes
numbers in this way.
-/

namespace ActorLogic.Decimal

/-- `num / den` is above the midpoint to the double below and below the midpoint to the one above;
a midpoint itself counts for an even significand. Distances are scaled by four, since the gap below
a power of two is half the gap above. -/
def Dyadic.covers (d : Dyadic) (num den : Nat) : Bool :=
  let boundary := d.significand = 1 <<< 52 ∧ -1074 < d.exponent
  let low := 4 * d.significand - (if boundary then 1 else 2)
  let high := 4 * d.significand + 2
  let up := 1 <<< d.exponent.toNat
  let down := 1 <<< (-d.exponent).toNat
  let value := 4 * num * down
  if d.significand % 2 = 0 then low * up * den ≤ value ∧ value ≤ high * up * den
  else low * up * den < value ∧ value < high * up * den

/-- How many times `n` can be multiplied by ten and stay below `m`, counted on from `k`. -/
def leadingZeros (m : Nat) : Nat → Nat → Nat → Nat
  | 0, _, k => k
  | fuel + 1, n, k => if m ≤ 10 * n then k else leadingZeros m fuel (10 * n) (k + 1)

/-- The number of digits before the decimal point; for a number below one, the zeros behind the
point, counted negative. -/
def Dyadic.pointPosition (d : Dyadic) : Int :=
  let n := d.numerator
  let m := d.denominator
  if m ≤ n then (toString (n / m)).length else -Int.ofNat (leadingZeros m 400 n 0)

/-- The value's two neighbours on the grid of `10 ^ scale`, or the nearer one, if they read back. -/
def Dyadic.onGrid? (d : Dyadic) (scale : Int) : Option Nat :=
  let up := Nat.pow 10 scale.toNat
  let down := Nat.pow 10 (-scale).toNat
  let n := d.numerator * down
  let m := d.denominator * up
  let nearest := roundHalfEven n m
  let other := if n / m = nearest then nearest + 1 else n / m
  if d.covers (nearest * up) down then some nearest
  else if d.covers (other * up) down then some other
  else none

/-- The first grid that has a hit, tried with `count` digits, one more, and so on. -/
def Dyadic.search (d : Dyadic) (top : Int) : Nat → Nat → Nat × Int
  | 0, _ => (0, 0)
  | fuel + 1, count =>
    match d.onGrid? (top - count) with
    | some n => (n, top - count)
    | none => d.search top fuel (count + 1)

/-- Digits and scale of the shortest decimal; seventeen digits are always enough. -/
def Dyadic.shortest (d : Dyadic) : Nat × Int := d.search d.pointPosition 18 1

/-- Digits without the zeros at their end, and the scale that makes up for them. -/
def dropZeros : Nat → Nat × Int → Nat × Int
  | 0, p => p
  | fuel + 1, (n, scale) =>
    if n ≠ 0 ∧ n % 10 = 0 then dropZeros fuel (n / 10, scale + 1) else (n, scale)

/-- Positional from 0.00001 up to 10 ^ 16, with at least one place; else with an exponent. -/
def layout (n : Nat) (scale : Int) : String :=
  let ds := toString n
  let point := (ds.length : Int) + scale
  if 0 ≤ scale ∧ point ≤ 16 then
    ds ++ "".pushn '0' scale.toNat ++ ".0"
  else if 0 < point ∧ point ≤ 16 then
    String.ofList (ds.toList.take point.toNat) ++ "." ++ String.ofList (ds.toList.drop point.toNat)
  else if -5 < point ∧ point ≤ 0 then
    "0." ++ "".pushn '0' (-point).toNat ++ ds
  else
    let tail := ds.toList.drop 1
    String.ofList (ds.toList.take 1)
      ++ (if tail.isEmpty then "" else "." ++ String.ofList tail) ++ "e" ++ toString (point - 1)

/-- A finite double in its shortest decimal text. -/
def shortest (x : Float) : String :=
  let d := Dyadic.ofFloat x
  let sign := if isNegative x then "-" else ""
  if d.significand = 0 then sign ++ "0.0"
  else
    let (n, scale) := dropZeros 400 d.shortest
    sign ++ layout n scale

end ActorLogic.Decimal
