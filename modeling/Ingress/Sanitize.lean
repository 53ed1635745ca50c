import Ingress.Validation.Limits
import Ingress.Json.Printer

/-!
# Sanitizing accepted events

* `Sanitize.string` : a text without control characters, cut short;
* `Sanitize.number` : a number brought into the safe range;
* `Sanitize.value` : a value at a depth, with long keys dropped, arrays cut short and what lies too
  deep emptied;
* `Sanitize.event` : the texts of an event and its data; a timestamp stays as it is;
* `Sanitize.event?` : the same, unless a number on the way has no range to be brought into.

A magnitude that is not a number passes the check of the limits, for no comparison with it holds. A real
number cannot be brought into its range, and whoever tries breaks off.
-/

namespace Ingress.Sanitize

open Json

/-- The characters a text may keep: no controls but the tab and the newline. -/
def keeps (c : Char) : Bool := c == '\n' || c == '\t' || !Text.isControlCode c

/-- A text without other control characters, of at most `max` characters. -/
def string (max : Nat) (s : String) : String := String.ofList ((s.toList.filter keeps).take max)

/-- A number within `[-magnitude, magnitude]`. Whole numbers stay whole: their bound is the whole
part of the magnitude within their word. -/
def number (magnitude : Double) : Number → Number
  | .whole n _ =>
    if n < signedBound then
      let bound := magnitude.toIntWithin wholeMin (signedBound - 1)
      .ofInt (Max.max (-bound) (Min.min bound n))
    else .ofInt (Min.min n (magnitude.toIntWithin 0 (wholeBound - 1)))
  | .real d _ => .ofDouble (d.clamp magnitude.neg magnitude)

/-- The bounds of a number are not in order, or one of them is not a number. -/
def lacksRange (magnitude : Double) : Number → Bool
  | .whole n _ =>
    decide (n < signedBound) && decide (magnitude.toIntWithin wholeMin (signedBound - 1) < 0)
  | .real _ _ => !magnitude.neg.le magnitude

mutual

/-- A value at a depth. -/
def value (l : Limits) (depth : Nat) : Value → Value
  | .null => .null
  | .bool b => .bool b
  | .number n => .number (number l.maxMagnitude n)
  | .string s => .string (string l.maxStringLength s)
  | .array vs => if l.maxDepth < depth then .array [] else .array (items l depth l.maxElements vs)
  | .object fs => if l.maxDepth < depth then .object [] else .object (fields l depth fs)

/-- The first elements of an array, at most `room`. -/
def items (l : Limits) (depth : Nat) : Nat → List Value → List Value
  | 0, _ => []
  | _ + 1, [] => []
  | room + 1, v :: rest => value l (depth + 1) v :: items l depth room rest

/-- The fields of an object whose keys are not too long. -/
def fields (l : Limits) (depth : Nat) : Fields → Fields
  | [] => []
  | (key, v) :: rest =>
    if l.maxKeyLength < key.length then fields l depth rest
    else (key, value l (depth + 1) v) :: fields l depth rest

end

mutual

/-- Some number that is met in a value at a depth lacks a range. -/
def breaks (l : Limits) (depth : Nat) : Value → Bool
  | .number n => lacksRange l.maxMagnitude n
  | .array vs => !decide (l.maxDepth < depth) && breaksItems l depth l.maxElements vs
  | .object fs => !decide (l.maxDepth < depth) && breaksFields l depth fs
  | _ => false

def breaksItems (l : Limits) (depth : Nat) : Nat → List Value → Bool
  | 0, _ => false
  | _ + 1, [] => false
  | room + 1, v :: rest => breaks l (depth + 1) v || breaksItems l depth room rest

def breaksFields (l : Limits) (depth : Nat) : Fields → Bool
  | [] => false
  | (key, v) :: rest =>
    !decide (l.maxKeyLength < key.length) && breaks l (depth + 1) v || breaksFields l depth rest

end

/-- A top-level field of an event: an object under `data` is walked, a text elsewhere is cleaned,
all else stays. -/
def topField (l : Limits) (key : String) (v : Value) : Value :=
  if key = "data" then
    match v with
    | .object fs => value l 1 (.object fs)
    | v => v
  else
    match v with
    | .string s => .string (string l.maxStringLength s)
    | v => v

def event (l : Limits) : Value → Value
  | .object fs => .object (fs.map fun (key, v) => (key, topField l key v))
  | v => v

def breaksTopField (l : Limits) (key : String) (v : Value) : Bool :=
  match v with
  | .object fs => key == "data" && breaks l 1 (.object fs)
  | _ => false

def breaksEvent (l : Limits) : Value → Bool
  | .object fs => fs.any fun (key, v) => breaksTopField l key v
  | _ => false

/-- An event, sanitized, if every number in it has a range. -/
def event? (l : Limits) (v : Value) : Option Value :=
  if breaksEvent l v then none else some (event l v)

end Ingress.Sanitize
