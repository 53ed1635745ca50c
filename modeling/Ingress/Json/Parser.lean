import Ingress.Json.Value

/-!
# Reading JSON texts

A reader takes the rest of a text and answers what it read and what is left.

* `Reader` : a reader of something;
* `readString`, `readNumber` : the scalar grammars;
* `readItems`, `readFields` : the elements of an array and the fields of an object, given a reader
  of one value;
* `readValue` : a value with at most a given number of nested arrays and objects;
* `Json.parse?` : a whole text. Arrays and objects nest at most 127 deep, a lone surrogate is no
  character, a number too large for a double is none, and of equal keys the last one counts.
-/

namespace Ingress.Json

/-- Reads something at the start of a text, and gives the rest of the text; `none` for an error. -/
abbrev Reader (α : Type) := List Char → Option (α × List Char)

/-- The four blank characters of JSON. -/
def isBlank (c : Char) : Bool := c == ' ' || c == '\t' || c == '\n' || c == '\r'

def skipBlanks (s : List Char) : List Char := s.dropWhile isBlank

def digitValue (c : Char) : Nat := c.toNat - 48

/-! ## Strings -/

def hexValue? (c : Char) : Option Nat :=
  if '0' ≤ c ∧ c ≤ '9' then some (c.toNat - 48)
  else if 'a' ≤ c ∧ c ≤ 'f' then some (c.toNat - 87)
  else if 'A' ≤ c ∧ c ≤ 'F' then some (c.toNat - 55)
  else none

def readHex4 : Reader Nat
  | a :: b :: c :: d :: rest => do
    let w ← hexValue? a
    let x ← hexValue? b
    let y ← hexValue? c
    let z ← hexValue? d
    pure (((w * 16 + x) * 16 + y) * 16 + z, rest)
  | _ => none

/-- The character of a `\u` escape: a high surrogate needs a low one behind it. -/
def readUnicode (s : List Char) : Option (Char × List Char) := do
  let (high, rest) ← readHex4 s
  if 0xd800 ≤ high ∧ high < 0xdc00 then
    match rest with
    | '\\' :: 'u' :: rest => do
      let (low, rest) ← readHex4 rest
      if 0xdc00 ≤ low ∧ low < 0xe000 then
        pure (Char.ofNat (0x10000 + (high - 0xd800) * 1024 + (low - 0xdc00)), rest)
      else none
    | _ => none
  else if 0xdc00 ≤ high ∧ high < 0xe000 then none
  else pure (Char.ofNat high, rest)

def unescape? (c : Char) : Option Char :=
  match c with
  | '"' => some '"'
  | '\\' => some '\\'
  | '/' => some '/'
  | 'b' => some (Char.ofNat 8)
  | 'f' => some (Char.ofNat 12)
  | 'n' => some '\n'
  | 'r' => some '\r'
  | 't' => some '\t'
  | _ => none

/-- The characters up to the closing quote, the read ones in reverse; every step shortens the text,
so its length is fuel enough. -/
def readStringBody : Nat → List Char → Reader String
  | 0, _, _ => none
  | _ + 1, _, [] => none
  | _ + 1, read, '"' :: rest => some (String.ofList read.reverse, rest)
  | fuel + 1, read, '\\' :: 'u' :: rest =>
    match readUnicode rest with
    | some (c, rest) => readStringBody fuel (c :: read) rest
    | none => none
  | fuel + 1, read, '\\' :: c :: rest =>
    match unescape? c with
    | some c => readStringBody fuel (c :: read) rest
    | none => none
  | fuel + 1, read, c :: rest =>
    if c.toNat < 32 ∨ c = '\\' then none else readStringBody fuel (c :: read) rest

def readString : Reader String := fun s => readStringBody (s.length + 1) [] s

/-! ## Numbers -/

def readDigits (s : List Char) : List Nat × List Char :=
  ((s.takeWhile Char.isDigit).map digitValue, s.dropWhile Char.isDigit)

/-- The digits before the point: a leading zero stands alone. -/
def readWholeDigits (s : List Char) : Option (List Nat × List Char) :=
  match readDigits s with
  | ([], _) => none
  | (0 :: _ :: _, _) => none
  | (digits, rest) => some (digits, rest)

/-- The digits behind the point, at least one; `none` inside when there is no point. -/
def readFraction : Reader (Option (List Nat))
  | '.' :: rest =>
    match readDigits rest with
    | ([], _) => none
    | (digits, rest) => some (some digits, rest)
  | rest => some (none, rest)

def readExponentDigits (negative : Bool) (s : List Char) : Option (Option Int × List Char) :=
  match readDigits s with
  | ([], _) => none
  | (digits, rest) =>
    let n : Nat := digits.foldl (fun n d => n * 10 + d) 0
    some (some (if negative then -(n : Int) else n), rest)

/-- The exponent, at least one digit; `none` inside when there is no exponent. -/
def readExponent : Reader (Option Int)
  | e :: rest =>
    if e == 'e' || e == 'E' then
      match rest with
      | '+' :: rest => readExponentDigits false rest
      | '-' :: rest => readExponentDigits true rest
      | rest => readExponentDigits false rest
    else some (none, e :: rest)
  | [] => some (none, [])

/-- A double with a sign; none when it is too large. -/
def signedReal? (negative : Bool) (digits : Nat) (exponent : Int) : Option Number := do
  let d ← Decimal.toDouble? digits exponent
  Number.ofDouble? (if negative then d.neg else d)

/-- The number of a sign, digits, fraction and exponent. A whole number that fits a word stays one;
`-0` and the others are doubles. -/
def number? (negative : Bool) (digits : List Nat) (fraction : Option (List Nat))
    (exponent : Option Int) : Option Number :=
  let whole := digits.foldl Decimal.Significand.whole .empty
  match fraction, exponent with
  | none, none =>
    if whole.full then signedReal? negative whole.digits whole.exponent
    else if negative then
      if whole.digits = 0 ∨ Nat.pow 2 63 < whole.digits then signedReal? true whole.digits 0
      else some (.ofInt (-(whole.digits : Int)))
    else some (.ofInt whole.digits)
  | _, _ =>
    let s := whole.fraction (fraction.getD [])
    signedReal? negative s.digits (s.exponent + exponent.getD 0)

def readNumber (s : List Char) : Option (Number × List Char) := do
  let (negative, s) := match s with
    | '-' :: rest => (true, rest)
    | s => (false, s)
  let (digits, s) ← readWholeDigits s
  let (fraction, s) ← readFraction s
  let (exponent, s) ← readExponent s
  let n ← number? negative digits fraction exponent
  pure (n, s)

/-! ## Values -/

/-- The elements of an array behind its first bracket, read ones in reverse, given a reader of one
element. -/
def readItems (read : Reader Value) : Nat → List Value → Reader (List Value)
  | 0, _, _ => none
  | fuel + 1, done, s =>
    match read s with
    | none => none
    | some (v, s) =>
      match skipBlanks s with
      | ',' :: s => readItems read fuel (v :: done) s
      | ']' :: s => some ((v :: done).reverse, s)
      | _ => none

/-- The fields of an object behind its first brace, given a reader of one value. -/
def readFields (read : Reader Value) : Nat → Fields → Reader Fields
  | 0, _, _ => none
  | fuel + 1, done, s =>
    match skipBlanks s with
    | '"' :: s =>
      match readString s with
      | none => none
      | some (key, s) =>
        match skipBlanks s with
        | ':' :: s =>
          match read s with
          | none => none
          | some (v, s) =>
            match skipBlanks s with
            | ',' :: s => readFields read fuel (insertField key v done) s
            | '}' :: s => some (insertField key v done, s)
            | _ => none
        | _ => none
    | _ => none

def readWord (word : String) (s : List Char) : Option (List Char) :=
  if s.take word.length = word.toList then some (s.drop word.length) else none

/-- An array or an object behind its opening bracket, given a reader of the values inside. -/
def readNested (read : Reader Value) (bracket : Char) : Reader Value := fun s =>
  if bracket = '[' then
    match skipBlanks s with
    | ']' :: rest => some (.array [], rest)
    | _ => (readItems read (s.length + 1) [] s).map fun (items, rest) => (.array items, rest)
  else
    match skipBlanks s with
    | '}' :: rest => some (.object [], rest)
    | _ => (readFields read (s.length + 1) [] s).map fun (fields, rest) => (.object fields, rest)

def readScalar (s : List Char) : Option (Value × List Char) :=
  match s with
  | '"' :: rest => (readString rest).map fun (t, rest) => (.string t, rest)
  | 'n' :: _ => (readWord "null" s).map fun rest => (.null, rest)
  | 't' :: _ => (readWord "true" s).map fun rest => (.bool true, rest)
  | 'f' :: _ => (readWord "false" s).map fun rest => (.bool false, rest)
  | s => (readNumber s).map fun (n, rest) => (.number n, rest)

/-- A value in which arrays and objects nest at most `depth` deep. -/
def readValue : Nat → Reader Value
  | 0, s =>
    match skipBlanks s with
    | '[' :: _ => none
    | '{' :: _ => none
    | s => readScalar s
  | depth + 1, s =>
    match skipBlanks s with
    | '[' :: rest => readNested (readValue depth) '[' rest
    | '{' :: rest => readNested (readValue depth) '{' rest
    | s => readScalar s

/-- How deep arrays and objects may nest. -/
def maxNesting : Nat := 127

def parse? (text : String) : Option Value :=
  match readValue maxNesting text.toList with
  | some (v, rest) => if (skipBlanks rest).isEmpty then some v else none
  | none => none

end Ingress.Json
