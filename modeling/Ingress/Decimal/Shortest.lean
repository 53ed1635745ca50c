import Ingress.Double

/-!
# The shortest decimal that reads back

* `Decimal` : digits and a power of ten, `digits * 10 ^ exponent`;
* `Interval` : the reals that round to one given double, on a binary grid four times as fine as
  the double's own;
* `nearestOn` : the point of the grid `10 ^ k` inside the interval that is nearest to the number;
* `Double.shortest` : the decimal of the coarsest grid that has such a point, so no decimal with
  fewer digits reads back.
-/

namespace Ingress

/-- The number `digits * 10 ^ exponent`. -/
structure Decimal where
  digits : Nat
  exponent : Int
deriving DecidableEq, Repr

namespace Decimal

/-- The reals that round to one double, in quarter units of its last place: from `low` to `high`
around `value`, times `2 ^ exponent`; the ends belong to it when `closed`. -/
structure Interval where
  low : Nat
  value : Nat
  high : Nat
  exponent : Int
  closed : Bool
deriving Repr

/-- The interval of a positive double. Below a power of two the grid is twice as fine, so the lower
end is nearer; the ends round to an even mantissa. -/
def Interval.ofParts (mantissa : Nat) (exponent : Int) : Interval :=
  { low := if mantissa = Nat.pow 2 52 ∧ exponent ≠ -1074 then 4 * mantissa - 1 else 4 * mantissa - 2
    value := 4 * mantissa
    high := 4 * mantissa + 2
    exponent := exponent - 2
    closed := mantissa % 2 = 0 }

/-- `n * 10 ^ k` compared with `m * 2 ^ e`, both sides brought to a common denominator: the scaled
unit of the grid and the scaled binary unit. -/
def units (k e : Int) : Nat × Nat :=
  (Nat.pow 10 k.toNat * Nat.pow 2 (-e).toNat, Nat.pow 2 e.toNat * Nat.pow 10 (-k).toNat)

/-- The point of the grid `10 ^ k` inside the interval that is nearest to its value; of two equally
near ones the even. -/
def nearestOn (i : Interval) (k : Int) : Option Nat :=
  let (grid, binary) := units k i.exponent
  let below := i.value * binary / grid
  let inside := fun n => if i.closed then i.low * binary ≤ n * grid && n * grid ≤ i.high * binary
    else i.low * binary < n * grid && n * grid < i.high * binary
  let under := i.value * binary - below * grid
  let above := (below + 1) * grid - i.value * binary
  match inside below, inside (below + 1) with
  | true, true =>
    if under < above then some below
    else if above < under then some (below + 1)
    else if below % 2 = 0 then some below else some (below + 1)
  | true, false => some below
  | false, true => some (below + 1)
  | false, false => none

/-- A power of ten above the interval. -/
def ceilingExponent (i : Interval) : Int :=
  (((i.high.log2 : Int) + i.exponent + 1) * 30103).fdiv 100000 + 1

/-- The decimal of the coarsest grid with a point in the interval: grids are tried from above the
number down, one power of ten at a time. -/
def ofInterval (i : Interval) : Decimal :=
  let top := ceilingExponent i
  ((List.range 24).findSome? fun (step : Nat) =>
    (nearestOn i (top - step)).map fun n => ⟨n, top - step⟩).getD ⟨0, 0⟩

end Decimal

/-- The shortest decimal that rounds to the magnitude of a finite double, the nearest of those. -/
def Double.shortest (d : Double) : Decimal :=
  let (mantissa, exponent) := d.parts
  if mantissa = 0 then ⟨0, 0⟩ else Decimal.ofInterval (.ofParts mantissa exponent)

end Ingress
