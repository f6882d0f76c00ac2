/-!
The shortest decimal that reads back as a given binary number. A number stands
for every real that rounds to it; those reals form an interval around it. Grids
of decimals are tried from the coarsest to the finest, and on the first grid
with a point in the interval the point nearest to the number is taken. All
comparisons are between natural numbers, so nothing is rounded on the way.
-/

namespace Broadphase

/-- The number `coefficient * 10 ^ exponent`. -/
structure Decimal where
  coefficient : Nat
  exponent : Int
  deriving DecidableEq, Repr

/-- The reals that round to one binary number. The bounds and the number itself
are given in units of `2 ^ exponent`, and `closed` tells whether the bounds
belong to the interval. -/
structure RoundingInterval where
  low : Nat
  value : Nat
  high : Nat
  exponent : Int
  closed : Bool
  deriving DecidableEq

namespace RoundingInterval

/-- The interval of the binary32 number `mantissa * 2 ^ exponent`. The gap to
the next lower number is halved at a power of two above the subnormal range,
where the mantissa is `2 ^ 23`,
and the bounds round to the number itself when its mantissa is even. -/
def ofBinary32 (mantissa : Nat) (exponent : Int) : RoundingInterval where
  low := 4 * mantissa - if mantissa = 8388608 ∧ -149 < exponent then 1 else 2
  value := 4 * mantissa
  high := 4 * mantissa + 2
  exponent := exponent - 2
  closed := mantissa % 2 = 0

/-- Numerator of the unit measured in steps of `10 ^ grid`. -/
def unitNum (r : RoundingInterval) (grid : Int) : Nat :=
  Nat.pow 2 r.exponent.toNat * Nat.pow 10 (-grid).toNat

/-- Denominator of the unit measured in steps of `10 ^ grid`. -/
def unitDen (r : RoundingInterval) (grid : Int) : Nat :=
  Nat.pow 2 (-r.exponent).toNat * Nat.pow 10 grid.toNat

/-- Whether the grid point `c * 10 ^ grid` lies in the interval. -/
def holds (r : RoundingInterval) (grid : Int) (c : Nat) : Bool :=
  let point := c * r.unitDen grid
  let low := r.low * r.unitNum grid
  let high := r.high * r.unitNum grid
  if r.closed then low ≤ point && point ≤ high else low < point && point < high

/-- The point of a grid in the interval that is nearest to the number, the
upper one of two that are equally near. Only the two grid points around the
number can be it. -/
def pointOn? (r : RoundingInterval) (grid : Int) : Option Nat :=
  let value := r.value * r.unitNum grid
  let below := value / r.unitDen grid
  let above := below + 1
  match r.holds grid below, r.holds grid above with
  | true, true =>
      if value - below * r.unitDen grid < above * r.unitDen grid - value then some below
      else some above
  | true, false => some below
  | false, true => some above
  | false, false => none

/-- The exponents of the decimal grids that binary32 numbers need, the coarsest
first. No number reaches `10 ^ 39`, and every interval is wider than
`10 ^ (-45)`. -/
def grids : List Int := (List.range 84).map fun k : Nat => (38 : Int) - (k : Int)

/-- The shortest decimal in the interval. -/
def shortest? (r : RoundingInterval) : Option Decimal :=
  grids.findSome? fun grid => (r.pointOn? grid).map fun c => ⟨c, grid⟩

end RoundingInterval

end Broadphase
