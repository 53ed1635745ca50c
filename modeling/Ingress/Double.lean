/-!
# Double precision numbers

* `Double` : an IEEE 754 binary64 number, held as its 64 bits;
* `Double.key` : the position of a number on the real line as an integer, with both zeros at `0`,
  so that `Double.lt` and `Double.le` are comparisons of integers;
* `Double.rank` : the position in the total order that also places the zeros and the NaNs;
* `Double.parts` : a finite number as `mantissa * 2 ^ exponent`;
* `Double.truncate` : the whole part, exact;
* `Double.clamp` : the nearest number of a closed interval;
* `Double.add`, `sub`, `mul`, `div` : correctly rounded arithmetic.
-/

namespace Ingress

/-- An IEEE 754 binary64 number, held as its 64 bits. -/
structure Double where
  bits : UInt64
deriving DecidableEq, Repr

namespace Double

/-! ## Bits -/

/-- The bits of positive infinity, which bound the magnitudes of the finite numbers. -/
def infinityBits : Nat := 0x7ff0000000000000

/-- The bits without the sign. -/
def magnitude (d : Double) : Nat := d.bits.toNat % Nat.pow 2 63

/-- Whether the sign bit is set; true of `-0.0`. -/
def negative (d : Double) : Bool := decide (Nat.pow 2 63 ≤ d.bits.toNat)

def isFinite (d : Double) : Bool := decide (d.magnitude < infinityBits)

def isNaN (d : Double) : Bool := decide (infinityBits < d.magnitude)

def isInfinite (d : Double) : Bool := d.magnitude == infinityBits

def neg (d : Double) : Double := ⟨d.bits ^^^ 0x8000000000000000⟩

def abs (d : Double) : Double := ⟨d.bits &&& 0x7fffffffffffffff⟩

def zero : Double := ⟨0⟩

/-- Negative zero, where an empty sum starts. -/
def negZero : Double := ⟨0x8000000000000000⟩

def infinity : Double := ⟨0x7ff0000000000000⟩

/-- The NaN that arithmetic answers. -/
def nan : Double := ⟨0x7ff8000000000000⟩

def largest : Double := ⟨0x7fefffffffffffff⟩

instance : Inhabited Double := ⟨zero⟩

/-! ## Order -/

/-- The position on the real line as an integer: the bits without the sign for positive numbers,
their negative for negative ones, and `0` for both zeros. -/
def key (d : Double) : Int := if d.negative then -(d.magnitude : Int) else d.magnitude

/-- Strictly less as reals; false when either is a NaN. -/
def lt (a b : Double) : Bool := !a.isNaN && !b.isNaN && decide (a.key < b.key)

/-- At most as reals; false when either is a NaN. -/
def le (a b : Double) : Bool := !a.isNaN && !b.isNaN && decide (a.key ≤ b.key)

/-- Equal as reals: the zeros are equal, a NaN equals nothing. -/
def same (a b : Double) : Bool := !a.isNaN && !b.isNaN && decide (a.key = b.key)

/-- The position in the total order: negative NaNs, negative numbers, `-0.0`, `0.0`, positive
numbers, positive NaNs. -/
def rank (d : Double) : Int := if d.negative then -(d.magnitude : Int) - 1 else d.magnitude

def totalLe (a b : Double) : Bool := decide (a.rank ≤ b.rank)

/-- The nearest number of `[low, high]`; a NaN stays. -/
def clamp (d low high : Double) : Double :=
  if d.lt low then low else if high.lt d then high else d

/-- The greater of two, the other one when one of them is a NaN. -/
def max (a b : Double) : Double :=
  if a.isNaN then b else if b.isNaN then a else if a.lt b then b else a

/-! ## Exact parts -/

/-- A finite magnitude as `mantissa * 2 ^ exponent`, read off the bits. -/
def parts (d : Double) : Nat × Int :=
  let fraction : Nat := d.magnitude % Nat.pow 2 52
  let biased : Nat := d.magnitude / Nat.pow 2 52
  if biased = 0 then (fraction, -1074) else (Nat.pow 2 52 + fraction, (biased : Int) - 1075)

/-- The whole part of the magnitude of a finite number. -/
def wholeMagnitude (d : Double) : Nat :=
  let (mantissa, exponent) := d.parts
  match exponent with
  | .ofNat e => mantissa * Nat.pow 2 e
  | .negSucc e => mantissa / Nat.pow 2 (e + 1)

/-- The whole part of a finite number, toward zero. -/
def truncate (d : Double) : Int :=
  if d.negative then -(d.wholeMagnitude : Int) else d.wholeMagnitude

/-- The whole part of a number brought into `[low, high]`; `0` for a NaN. -/
def toIntWithin (d : Double) (low high : Int) : Int :=
  if d.isNaN then 0
  else if d.isInfinite then (if d.negative then low else high)
  else Max.max low (Min.min high d.truncate)

/-! ## Arithmetic -/

/-- The number as the built-in floating point type. -/
def toFloat (d : Double) : Float := Float.ofBits d.bits

/-- A number of the built-in floating point type. -/
def ofFloat (f : Float) : Double := ⟨f.toBits⟩

/-- The natural number, rounded to nearest. -/
def ofNat (n : Nat) : Double := ofFloat (Float.ofNat n)

def ofInt (n : Int) : Double := if n < 0 then (ofNat n.natAbs).neg else ofNat n.natAbs

/-- The power of ten, rounded to nearest. -/
def pow10 (e : Nat) : Double := ofFloat (Float.ofScientific 1 false e)

/-- The sum, rounded to nearest. -/
def add (a b : Double) : Double := ofFloat (a.toFloat + b.toFloat)

def sub (a b : Double) : Double := ofFloat (a.toFloat - b.toFloat)

def mul (a b : Double) : Double := ofFloat (a.toFloat * b.toFloat)

def div (a b : Double) : Double := ofFloat (a.toFloat / b.toFloat)

end Double

end Ingress
