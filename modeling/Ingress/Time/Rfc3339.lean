import Ingress.Text.Class
import Ingress.Time.Instant

/-!
# Reading RFC 3339 texts

* `TimeError` : why a text is no date and time, with `TimeError.message`;
* `TimeOfDay` : hour, minute, second and fraction;
* `Instant.readDate`, `readTime`, `readOffset` : the parts of a text. Blanks may stand before each number
  and around the separators, the offset may be `Z`, `UTC` or hours and minutes with or without a colon, and
  digits beyond the ninth of a fraction are dropped;
* `Instant.ofLocal` : the instant of the parts;
* `Instant.parse` : the instant of a text.

A field out of its range is found when it is read, a day that its month lacks at the end, and last that the
offset leads out of the years that there are.
-/

namespace Ingress

inductive TimeError where
  | tooShort
  | invalid
  | outOfRange
  | trailing
  | impossible
deriving DecidableEq, Repr

def TimeError.message : TimeError → String
  | .tooShort => "premature end of input"
  | .invalid => "input contains invalid characters"
  | .outOfRange => "input is out of range"
  | .trailing => "trailing input"
  | .impossible => "no possible date and time matching input"

structure TimeOfDay where
  hour : Nat
  minute : Nat
  second : Nat
  nanos : Nat

namespace TimeOfDay

/-- Second 60 is a leap second. -/
def isLeap (t : TimeOfDay) : Bool := t.second == 60

/-- The seconds of the day; a leap second goes on from the one before it. -/
def seconds (t : TimeOfDay) : Nat :=
  t.hour * 3600 + t.minute * 60 + (if t.isLeap then 59 else t.second)

end TimeOfDay

namespace Instant

/-- The largest number that a field of a date may spell. -/
def fieldBound : Nat := Nat.pow 2 63

/-- A number of one to `width` digits, behind blanks. -/
def readDigits (width : Nat) (s : List Char) : Except TimeError (Nat × List Char) :=
  match s with
  | [] => .error .tooShort
  | c :: _ =>
    if c.isDigit then
      let digits := (s.take width).takeWhile Char.isDigit
      let n := digits.foldl (fun n c => n * 10 + (c.toNat - 48)) 0
      if fieldBound ≤ n then .error .outOfRange else .ok (n, s.drop digits.length)
    else .error .invalid

/-- A number of at most two digits within bounds, behind blanks. -/
def readField (low high : Nat) (s : List Char) : Except TimeError (Nat × List Char) := do
  let (n, rest) ← readDigits 2 (Text.trimStart s)
  if low ≤ n ∧ n ≤ high then .ok (n, rest) else .error .outOfRange

/-- A number with a sign, of any number of digits, or without one and of four digits at most. -/
def readSigned (s : List Char) : Except TimeError (Int × List Char) :=
  match s with
  | [] => .error .tooShort
  | c :: rest =>
    if c = '-' then (readDigits rest.length rest).map fun (n, rest) => (-(n : Int), rest)
    else if c = '+' then (readDigits rest.length rest).map fun (n, rest) => ((n : Int), rest)
    else (readDigits 4 s).map fun (n, rest) => ((n : Int), rest)

/-- The years that a field may hold, those of 32 bits. -/
def yearFits (year : Int) : Bool := -Nat.pow 2 31 ≤ year && year < Nat.pow 2 31

def readYear (s : List Char) : Except TimeError (Int × List Char) := do
  let (year, rest) ← readSigned (Text.trimStart s)
  if yearFits year then .ok (year, rest) else .error .outOfRange

/-- A separator, behind blanks. -/
def readMark (mark : Char) (s : List Char) : Except TimeError (List Char) :=
  match Text.trimStart s with
  | [] => .error .tooShort
  | c :: rest => if c = mark then .ok rest else .error .invalid

/-- The nanoseconds of a fraction of a second; `0` when there is none. -/
def readNanos (s : List Char) : Except TimeError (Nat × List Char) :=
  match s with
  | [] => .ok (0, s)
  | c :: rest =>
    if c = '.' then do
      let (n, after) ← readDigits 9 rest
      let digits := rest.length - after.length
      pure (n * Nat.pow 10 (9 - digits), after.dropWhile Char.isDigit)
    else .ok (0, s)

/-- Two characters of which each is a digit. -/
def readTwoDigits (s : List Char) : Except TimeError (Nat × List Char) :=
  match s with
  | [] => .error .tooShort
  | [c] => if c.toNat < 128 then .error .tooShort else .error .invalid
  | a :: b :: rest =>
    if a.isDigit && b.isDigit then .ok ((a.toNat - 48) * 10 + (b.toNat - 48), rest)
    else .error .invalid

/-- Hours and minutes of an offset, behind its sign, in seconds. -/
def readOffsetFields (s : List Char) : Except TimeError (Nat × List Char) := do
  let (hours, s) ← readTwoDigits s
  let (minutes, s) ← readTwoDigits (s.dropWhile fun c => c == ':' || Text.isBlankSpace c)
  if minutes < 60 then .ok (hours * 3600 + minutes * 60, s) else .error .outOfRange

/-- An offset from UTC in seconds: `Z`, `UTC`, or a sign with hours and minutes. -/
def readOffset (s : List Char) : Except TimeError (Int × List Char) :=
  if (s.take 3).map Text.lowerAscii = ['u', 't', 'c'] then .ok (0, s.drop 3)
  else
    match s with
    | [] => .error .tooShort
    | c :: rest =>
      if c = 'Z' ∨ c = 'z' then .ok (0, rest)
      else if c = '+' then (readOffsetFields rest).map fun (n, rest) => ((n : Int), rest)
      else if c = '-' ∨ c.toNat = 0x2212 then
        (readOffsetFields rest).map fun (n, rest) => (-(n : Int), rest)
      else .error .invalid

/-- The years an instant can lie in. -/
def yearInRange (year : Int) : Bool := -262143 ≤ year && year ≤ 262142

def readDate (s : List Char) : Except TimeError (Date × List Char) := do
  let (year, s) ← readYear s
  let s ← readMark '-' s
  let (month, s) ← readField 1 12 s
  let s ← readMark '-' s
  let (day, s) ← readField 1 31 s
  .ok (⟨year, month, day⟩, s)

def readParting (s : List Char) : Except TimeError (List Char) :=
  match s with
  | [] => .error .tooShort
  | c :: rest => if c = 't' ∨ c = 'T' ∨ c = ' ' then .ok rest else .error .invalid

def readTime (s : List Char) : Except TimeError (TimeOfDay × List Char) := do
  let (hour, s) ← readField 0 23 s
  let s ← readMark ':' s
  let (minute, s) ← readField 0 59 s
  let s ← readMark ':' s
  let (second, s) ← readField 0 60 s
  let (nanos, s) ← readNanos s
  .ok (⟨hour, minute, second, nanos⟩, s)

/-- The instant of a date and a time at an offset, if that date and the one in UTC exist. -/
def ofLocal (date : Date) (time : TimeOfDay) (offset : Int) : Except TimeError Instant :=
  if date.valid && yearInRange date.year && offset.natAbs < 86400 then
    let seconds := date.toDays * 86400 + time.seconds - offset
    if yearInRange (Date.ofDays (seconds.fdiv 86400)).year then
      .ok ⟨seconds, time.nanos + (if time.isLeap then nanosPerSecond else 0)⟩
    else .error .impossible
  else .error .outOfRange

def parse (text : String) : Except TimeError Instant := do
  let (date, s) ← readDate text.toList
  let s ← readParting s
  let (time, s) ← readTime s
  let (offset, s) ← readOffset (Text.trimStart s)
  if !(Text.trimStart s).isEmpty then .error .trailing
  else ofLocal date time offset

end Instant

end Ingress
