import Ingress.Config.Loose
import Ingress.Json.Parser

/-!
# Scalars of TOML

Readers take the rest of the text and give the rest behind what they have read, `none` for a syntax
error.

* `Toml.isControl`, `Toml.skipBlanks`, `Toml.newline?` : the characters between values;
* `Toml.basicString`, `literalString`, `multilineString` : strings of every quoting;
* `Toml.integer?`, `Toml.float?`, `Toml.dateTime?` : the meaning of a bare word;
* `Toml.readScalar` : a value that is no array and no table.
-/

namespace Ingress.Toml

open Config

/-- The controls that may not stand in a document: all but the tab. -/
def isControl (c : Char) : Bool := (c.toNat < 32 && c != '\t') || c.toNat == 127

def skipBlanks (s : List Char) : List Char := s.dropWhile fun c => c == ' ' || c == '\t'

def newline? : List Char → Option (List Char)
  | '\n' :: rest => some rest
  | '\r' :: '\n' :: rest => some rest
  | _ => none

/-! ## Strings -/

def hexNumber? (cs : List Char) : Option Nat :=
  cs.foldlM (fun n c => (Json.hexValue? c).map fun d => n * 16 + d) 0

def readCode (width : Nat) (s : List Char) : Option (Char × List Char) :=
  let cs := s.take width
  if cs.length < width then none
  else
    (hexNumber? cs).bind fun n =>
      if n < 0xd800 ∨ (0xe000 ≤ n ∧ n < 0x110000) then some (Char.ofNat n, s.drop width) else none

/-- The character that a backslash and this character stand for. -/
def unescape? (c : Char) : Option Char :=
  match c with
  | 'b' => some (Char.ofNat 8)
  | 't' => some '\t'
  | 'n' => some '\n'
  | 'f' => some (Char.ofNat 12)
  | 'r' => some '\r'
  | '"' => some '"'
  | '\\' => some '\\'
  | _ => none

def readEscape : List Char → Option (Char × List Char)
  | 'u' :: rest => readCode 4 rest
  | 'U' :: rest => readCode 8 rest
  | c :: rest => (unescape? c).map fun c => (c, rest)
  | [] => none

/-- A string in double quotes behind the first one; read characters in reverse. -/
def basicBody : Nat → List Char → List Char → Option (String × List Char)
  | 0, _, _ => none
  | _ + 1, _, [] => none
  | _ + 1, read, '"' :: rest => some (String.ofList read.reverse, rest)
  | fuel + 1, read, '\\' :: rest =>
    (readEscape rest).bind fun (c, rest) => basicBody fuel (c :: read) rest
  | fuel + 1, read, c :: rest => if isControl c then none else basicBody fuel (c :: read) rest

/-- A string in double quotes, behind the first one. -/
def basicString (s : List Char) : Option (String × List Char) := basicBody (s.length + 1) [] s

/-- A string in single quotes, behind the first one. -/
def literalString (s : List Char) : Option (String × List Char) :=
  let body := s.takeWhile fun c => c != '\''
  match s.dropWhile fun c => c != '\'' with
  | _ :: rest => if body.any isControl then none else some (String.ofList body, rest)
  | [] => none

def isSpace (c : Char) : Bool := c == ' ' || c == '\t' || c == '\n' || c == '\r'

/-- The quotes at the end of a string over several lines: up to two of them belong to it. -/
def closing? (quote : Char) (s : List Char) : Option (List Char × List Char) :=
  let run := (s.takeWhile fun c => c == quote).length
  if 3 ≤ run ∧ run ≤ 5 then some (List.replicate (run - 3) quote, s.drop run) else none

/-- A backslash at the end of a line takes the blanks up to the next text away. -/
def continuation? (s : List Char) : Option (List Char) :=
  (newline? (skipBlanks s)).map fun rest => rest.dropWhile isSpace

/-- A string over several lines behind its opening quotes; read characters in reverse. -/
def multilineBody (quote : Char) : Nat → List Char → List Char → Option (String × List Char)
  | 0, _, _ => none
  | _ + 1, _, [] => none
  | fuel + 1, read, c :: rest =>
    if c = quote then
      match closing? quote (c :: rest) with
      | some (last, rest) => some (String.ofList (read.reverse ++ last), rest)
      | none => multilineBody quote fuel (c :: read) rest
    else if c = '\\' ∧ quote = '"' then
      match continuation? rest with
      | some rest => multilineBody quote fuel read rest
      | none => (readEscape rest).bind fun (c, rest) => multilineBody quote fuel (c :: read) rest
    else
      match newline? (c :: rest) with
      | some rest => multilineBody quote fuel ('\n' :: read) rest
      | none => if isControl c then none else multilineBody quote fuel (c :: read) rest

/-- A string over several lines, behind its opening quotes; a line end there is not part of it. -/
def multilineString (quote : Char) (s : List Char) : Option (String × List Char) :=
  let s := (newline? s).getD s
  multilineBody quote (s.length + 1) [] s

def readString : List Char → Option (String × List Char)
  | '"' :: '"' :: '"' :: rest => multilineString '"' rest
  | '"' :: rest => basicString rest
  | '\'' :: '\'' :: '\'' :: rest => multilineString '\'' rest
  | '\'' :: rest => literalString rest
  | _ => none

/-! ## Bare words -/

/-- The characters of numbers and dates. -/
def isWordChar (c : Char) : Bool :=
  c.isAlphanum || c == '_' || c == '-' || c == '+' || c == '.' || c == ':'

/-- Digits of a base in which underscores stand between two digits; without the underscores. -/
def groupedDigits? (isDigit : Char → Bool) : List Char → Option (List Char)
  | [] => none
  | [c] => if isDigit c then some [c] else none
  | c :: '_' :: rest => if isDigit c then (groupedDigits? isDigit rest).map (c :: ·) else none
  | c :: rest => if isDigit c then (groupedDigits? isDigit rest).map (c :: ·) else none

def isDigitOf (base : Nat) (c : Char) : Bool :=
  match Json.hexValue? c with
  | some d => d < base
  | none => false

def baseNumber? (base : Nat) (cs : List Char) : Option Nat :=
  (groupedDigits? (isDigitOf base) cs).map fun cs =>
    cs.foldl (fun n c => n * base + (Json.hexValue? c).getD 0) 0

/-- Decimal digits without a leading zero. -/
def wholeDigits? (cs : List Char) : Option (List Char) :=
  (groupedDigits? Char.isDigit cs).bind fun ds =>
    if ds.head? = some '0' ∧ ds.length ≠ 1 then none else some ds

/-- An integer of a signed word. -/
def inWord? (n : Int) : Option Int :=
  if -Json.signedBound ≤ n ∧ n < Json.signedBound then some n else none

def integer? (cs : List Char) : Option Int :=
  match cs with
  | '0' :: 'x' :: rest => (baseNumber? 16 rest).bind fun n => inWord? n
  | '0' :: 'o' :: rest => (baseNumber? 8 rest).bind fun n => inWord? n
  | '0' :: 'b' :: rest => (baseNumber? 2 rest).bind fun n => inWord? n
  | cs =>
    let (negative, cs) := Literal.signed cs
    (wholeDigits? cs).bind fun ds =>
      let n : Int := Literal.digitsValue ds
      inWord? (if negative then -n else n)

/-- A bare word that is a decimal without its sign: it has a fraction or an exponent. -/
def decimal? (cs : List Char) : Option Double := do
  let isMark := fun (c : Char) => c == 'e' || c == 'E'
  let mantissa := cs.takeWhile fun c => !isMark c
  let exponentPart := cs.dropWhile fun c => !isMark c
  let whole ← wholeDigits? (mantissa.takeWhile (· != '.'))
  let fraction ←
    match mantissa.dropWhile (· != '.') with
    | [] => some []
    | _ :: ds => groupedDigits? Char.isDigit ds
  let exponent ←
    match exponentPart with
    | [] => if fraction.isEmpty then none else some (0 : Int)
    | _ :: rest =>
      let (negative, ds) := Literal.signed rest
      (groupedDigits? Char.isDigit ds).map fun ds =>
        let n : Int := Literal.digitsValue ds
        if negative then -n else n
  let d := Decimal.nearest (Literal.digitsValue (whole ++ fraction)) (exponent - fraction.length)
  if d.isInfinite then none else some d

def float? (cs : List Char) : Option Double :=
  let (negative, cs) := Literal.signed cs
  let magnitude :=
    if cs = "inf".toList then some Double.infinity
    else if cs = "nan".toList then some Double.nan
    else decimal? cs
  magnitude.map fun d => if negative then d.neg else d

/-- A date or a time starts with digits and a hyphen or a colon. -/
def looksLikeTime (cs : List Char) : Bool :=
  let digits := (cs.takeWhile Char.isDigit).length
  let mark := (cs.drop digits).head?
  (digits == 4 && mark == some '-') || (digits == 2 && mark == some ':')

/-- A date or a time, in its usual letters. -/
def dateTime? (cs : List Char) : Option String :=
  if looksLikeTime cs ∧ cs.all fun c => c.isDigit || "-:.+TtZz".toList.contains c then
    some (String.ofList (cs.map Char.toUpper))
  else none

def word? (cs : List Char) : Option Loose :=
  if cs = "true".toList then some (.bool true)
  else if cs = "false".toList then some (.bool false)
  else
    ((integer? cs).map Loose.int).or
      (((float? cs).map Loose.real).or ((dateTime? cs).map Loose.text))

/-- A bare word; a date and its time may have a blank between them. -/
def takeWord (s : List Char) : List Char × List Char :=
  let word := s.takeWhile isWordChar
  let rest := s.dropWhile isWordChar
  match rest with
  | ' ' :: c :: more =>
    if c.isDigit ∧ word.length = 10 ∧ looksLikeTime word then
      let time := c :: more
      (word ++ 'T' :: time.takeWhile isWordChar, time.dropWhile isWordChar)
    else (word, rest)
  | _ => (word, rest)

def readScalar (s : List Char) : Option (Loose × List Char) :=
  match s with
  | '"' :: _ => (readString s).map fun (t, rest) => (.text t, rest)
  | '\'' :: _ => (readString s).map fun (t, rest) => (.text t, rest)
  | s =>
    let (word, rest) := takeWord s
    (word? word).map fun v => (v, rest)

end Ingress.Toml
