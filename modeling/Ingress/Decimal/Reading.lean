import Ingress.Double

/-!
# Reading a decimal number

A number text is read into a 64-bit significand and a power of ten, and the double is the
significand scaled by that power, each step rounded once.

* `wordBound` : significands stay below it;
* `Significand` : the digits read so far and the power of ten they stand for;
* `Significand.whole`, `Significand.fraction` : one more digit before or behind the point;
* `scale` : the double, `none` when it is too large.
-/

namespace Ingress.Decimal

/-- Significands are 64-bit words. -/
def wordBound : Nat := Nat.pow 2 64

/-- A significand, the power of ten of its last digit, and whether a digit did not fit. -/
structure Significand where
  digits : Nat
  exponent : Int
  full : Bool
deriving Repr

namespace Significand

def empty : Significand := ⟨0, 0, false⟩

/-- One more digit before the point: once the word is full, a digit only counts as a power of
ten. -/
def whole (s : Significand) (digit : Nat) : Significand :=
  if s.full || wordBound ≤ s.digits * 10 + digit then ⟨s.digits, s.exponent + 1, true⟩
  else ⟨s.digits * 10 + digit, s.exponent, false⟩

/-- The digits behind the point: those after the first that does not fit the word are dropped. -/
def fraction (s : Significand) : List Nat → Significand
  | [] => s
  | digit :: rest =>
    if wordBound ≤ s.digits * 10 + digit then s
    else fraction ⟨s.digits * 10 + digit, s.exponent - 1, s.full⟩ rest

end Significand

/-- The significand times a power of ten: exponents beyond the largest power of ten of a double are
taken in steps of 308, and a number too large for a double is refused. -/
def scale (d : Double) (exponent : Int) : Nat → Option Double
  | 0 => some d
  | fuel + 1 =>
    if exponent.natAbs ≤ 308 then
      if 0 ≤ exponent then
        let r := d.mul (.pow10 exponent.natAbs)
        if r.isInfinite then none else some r
      else some (d.div (.pow10 exponent.natAbs))
    else if d.magnitude = 0 then some d
    else if 0 ≤ exponent then none
    else scale (d.div (.pow10 308)) (exponent + 308) fuel

/-- The double that a significand and a power of ten stand for. Three steps of 308 bring every
significand to zero, so four suffice. -/
def toDouble? (digits : Nat) (exponent : Int) : Option Double :=
  scale (.ofNat digits) exponent 4

end Ingress.Decimal
