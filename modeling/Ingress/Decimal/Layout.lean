import Ingress.Decimal.Shortest

/-!
# Decimal texts of doubles

* `Layout` : the choices of one number format;
* `Layout.text` : a double in that format;
* `Layout.json` : numbers in JSON texts;
* `Layout.plain` : numbers in messages and in the text export;
* `Layout.debug` : numbers in log fields;
* `Double.fixed` : a double with a fixed number of decimals, a half going to the even neighbour.
-/

namespace Ingress

/-- How a double is written: which exponents of the first digit are positional, whether a whole
number keeps `.0`, whether a positive exponent has its sign, and the texts of a NaN and of the
infinities, by their sign. -/
structure Layout where
  positional : Int → Bool
  pointZero : Bool
  exponentSign : Bool
  nan : String
  infinity : Bool → String

namespace Layout

/-- JSON numbers are positional from `1e-5` up to, not including, `1e16`; a number JSON cannot hold
is `null`. -/
def json : Layout :=
  { positional := fun e => -5 ≤ e && e < 16
    pointZero := true
    exponentSign := true
    nan := "null"
    infinity := fun _ => "null" }

def signedInfinity (negative : Bool) : String := if negative then "-inf" else "inf"

/-- Numbers in messages never have an exponent, and a whole number no point. -/
def plain : Layout :=
  { positional := fun _ => true
    pointZero := false
    exponentSign := false
    nan := "NaN"
    infinity := signedInfinity }

/-- Numbers in log fields are written as in JSON, with a bare positive exponent. -/
def debug : Layout :=
  { json with exponentSign := false, nan := "NaN", infinity := signedInfinity }

/-- The digits of a decimal with `scale` of them behind the point. -/
def placePoint (digits : List Char) (scale : Nat) : List Char × List Char :=
  let padded := List.replicate (scale + 1 - digits.length) '0' ++ digits
  (padded.take (padded.length - scale), padded.drop (padded.length - scale))

def positionalText (l : Layout) (d : Decimal) : String :=
  let digits := (toString d.digits).toList
  let (whole, fraction) :=
    placePoint (digits ++ List.replicate d.exponent.toNat '0') (-d.exponent).toNat
  if fraction.isEmpty then String.ofList whole ++ (if l.pointZero then ".0" else "")
  else String.ofList (whole ++ '.' :: fraction)

/-- A decimal as one digit, a fraction and an exponent. -/
def exponentText (l : Layout) (d : Decimal) : String :=
  let digits := (toString d.digits).toList
  let exponent := d.exponent + (digits.length - 1 : Nat)
  let fraction := digits.drop 1
  let sign := if exponent < 0 then "-" else if l.exponentSign then "+" else ""
  String.ofList (digits.take 1 ++ (if fraction.isEmpty then [] else '.' :: fraction)) ++ "e" ++ sign
    ++ toString exponent.natAbs

/-- A double in this format: the shortest digits that read back. -/
def text (l : Layout) (d : Double) : String :=
  if d.isNaN then l.nan
  else if d.isInfinite then l.infinity d.negative
  else
    let s := d.shortest
    let first := s.exponent + ((toString s.digits).length - 1 : Nat)
    (if d.negative then "-" else "") ++
      (if l.positional first then l.positionalText s else l.exponentText s)

end Layout

/-- A quotient rounded to the nearest natural number, a half going to the even neighbour. -/
def divRoundEven (num den : Nat) : Nat :=
  let q := num / den
  let twice := 2 * (num % den)
  if twice < den then q else if den < twice then q + 1 else if q % 2 = 0 then q else q + 1

/-- A double with `places` decimals, rounded from its exact value. -/
def Double.fixed (d : Double) (places : Nat) : String :=
  if d.isNaN then "NaN"
  else if d.isInfinite then Layout.signedInfinity d.negative
  else
    let (mantissa, exponent) := d.parts
    let scaled := divRoundEven (mantissa * Nat.pow 2 exponent.toNat * Nat.pow 10 places)
      (Nat.pow 2 (-exponent).toNat)
    let (whole, fraction) := Layout.placePoint (toString scaled).toList places
    (if d.negative then "-" else "") ++
      String.ofList (if fraction.isEmpty then whole else whole ++ '.' :: fraction)

end Ingress
