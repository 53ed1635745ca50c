import Ingress.Decimal.Layout
import Ingress.Decimal.Reading

/-!
# JSON numbers

* `Json.Number` : a whole number of a 64-bit word, signed or unsigned, or a finite double;
* `Number.text` : its JSON text;
* `Number.ofInt`, `Number.ofDouble?` : the numbers that an integer or a double names;
* `Number.toDouble` : the number as a double, rounded;
* `Number.int64?` : the number as a signed word, if it is whole and in range.
-/

namespace Ingress.Json

/-- The least whole number: that of a signed 64-bit word. -/
def wholeMin : Int := -Nat.pow 2 63

/-- The bound of the whole numbers: that of an unsigned 64-bit word. -/
def wholeBound : Int := Nat.pow 2 64

def signedBound : Int := Nat.pow 2 63

/-- A number of a JSON text: whole when it is written without point and exponent and fits a word,
else a finite double. -/
inductive Number where
  | whole (n : Int) (fits : wholeMin ≤ n ∧ n < wholeBound)
  | real (d : Double) (finite : d.isFinite = true)
deriving DecidableEq

namespace Number

def zero : Number := .whole 0 (by decide)

/-- An integer brought into the words. -/
def ofInt (n : Int) : Number :=
  if h : wholeMin ≤ n ∧ n < wholeBound then .whole n h else zero

def ofDouble? (d : Double) : Option Number :=
  if h : d.isFinite = true then some (.real d h) else none

/-- A finite double, and the double `0.0` for the others. -/
def ofDouble (d : Double) : Number :=
  if h : d.isFinite = true then .real d h else .real .zero (by decide)

def text : Number → String
  | .whole n _ => toString n
  | .real d _ => Layout.json.text d

/-- The number as a double, rounded to nearest. -/
def toDouble : Number → Double
  | .whole n _ => .ofInt n
  | .real d _ => d

/-- A whole number in the range of a signed word. -/
def int64? : Number → Option Int
  | .whole n _ => if n < signedBound then some n else none
  | .real _ _ => none

def nat? : Number → Option Nat
  | .whole n _ => if 0 ≤ n then some n.toNat else none
  | .real _ _ => none

end Number

end Ingress.Json
