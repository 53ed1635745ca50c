import Ingress.Double
import Ingress.Text.Class

/-!
# Numbers in plain texts

* `Decimal.nearest` : the double nearest to a decimal;
* `Literal.integer?`, `Literal.int64?` : a text that is an integer;
* `Literal.real?` : a text that is a decimal, an infinity, or NaN.
-/

namespace Ingress.Decimal

/-- The decimal exponents of the first digit beyond which a double is infinite, or zero. -/
def farExponent : Int := 400

/-- The double nearest to `digits * 10 ^ exponent`. -/
def nearest (digits : Nat) (exponent : Int) : Double :=
  let first : Int := (toString digits).length + exponent
  if digits = 0 ∨ first < -farExponent then .zero
  else if farExponent < first then .infinity
  else .ofFloat (Float.ofScientific digits (decide (exponent < 0)) exponent.natAbs)

end Ingress.Decimal

namespace Ingress.Literal

/-- Decimal digits, at least one. -/
def areDigits (cs : List Char) : Bool := !cs.isEmpty && cs.all Char.isDigit

def digitsValue (cs : List Char) : Nat := cs.foldl (fun n c => n * 10 + (c.toNat - 48)) 0

def signed : List Char → Bool × List Char
  | '-' :: rest => (true, rest)
  | '+' :: rest => (false, rest)
  | rest => (false, rest)

def integer? (s : String) : Option Int :=
  let (negative, cs) := signed s.toList
  if areDigits cs then
    let n : Int := digitsValue cs
    some (if negative then -n else n)
  else none

def int64? (s : String) : Option Int :=
  (integer? s).bind fun n => if -Nat.pow 2 63 ≤ n ∧ n < Nat.pow 2 63 then some n else none

/-- A natural number of a 64-bit word; it may have a plus in front. -/
def nat64? (s : String) : Option Nat :=
  let cs := s.toList
  let cs := if cs.head? = some '+' then cs.drop 1 else cs
  if areDigits cs ∧ digitsValue cs < Nat.pow 2 64 then some (digitsValue cs) else none

def exponent? (cs : List Char) : Option Int :=
  let (negative, cs) := signed cs
  if areDigits cs then
    let n : Int := digitsValue cs
    some (if negative then -n else n)
  else none

/-- A decimal without a sign: digits with a point or without, and an exponent or none. -/
def decimal? (cs : List Char) : Option Double :=
  let whole := cs.takeWhile Char.isDigit
  let rest := cs.dropWhile Char.isDigit
  let (fraction, rest) :=
    match rest with
    | '.' :: rest => (rest.takeWhile Char.isDigit, rest.dropWhile Char.isDigit)
    | rest => ([], rest)
  let digits := whole ++ fraction
  if digits.isEmpty then none
  else
    let value := fun (e : Int) => Decimal.nearest (digitsValue digits) (e - fraction.length)
    match rest with
    | [] => some (value 0)
    | e :: rest => if e = 'e' ∨ e = 'E' then (exponent? rest).map value else none

/-- The words for numbers that are not finite. -/
def special? (cs : List Char) : Option Double :=
  let word := String.ofList (cs.map Text.lowerAscii)
  if word = "inf" ∨ word = "infinity" then some .infinity
  else if word = "nan" then some .nan
  else none

def real? (s : String) : Option Double :=
  let (negative, cs) := signed s.toList
  ((special? cs).or (decimal? cs)).map fun d => if negative then d.neg else d

end Ingress.Literal
