import Ingress.Decimal.Layout
import Ingress.Json.Printer
import Ingress.Validation.Limits
import Ingress.Validation.Notice

/-!
# Findings

* `Problem` : what can be wrong with an event, with `Problem.message`;
* `Finding` : a problem at a place of the event, and the notice of it;
* `Report` : the first findings of an event, at most `Report.capacity`;
* `Report.isValid` : no finding is an error.
-/

namespace Ingress

inductive Problem where
  | notAnObject
  | tooLarge (size max : Nat)
  | reserved
  | unexpected
  | typeNotString
  | unknownType (quoted : String)
  | typeDisabled (kind : Kind)
  | missing (fields : List String)
  | timestampNotNumber
  | timestampNegative
  | timestampFar (tolerance : Nat)
  | gameIdNotString
  | gameIdMalformed (maxLength : Nat)
  | dataNotObject
  | tooDeep (max : Nat)
  | tooManyProperties (count max : Nat)
  | keyTooLong (max : Nat)
  | tooManyElements (count max : Nat)
  | notFinite
  | truncated (max : Nat)
  | required
  | negative
  | outsideReals (low high : Double)
  | outsideIntegers (low high : Int)
  | notNumber
  | notInteger
  | notArray
  | unknownHand
  | noCards
  | tooManyCards (count max : Nat)
  | badRank
  | badSuit
  | badCardCode
  | notCard
  | tooManyItems (count max : Nat)
  | itemNotObject
deriving DecidableEq

namespace Problem

/-- A lower and an upper bound of a message. -/
def between (low high : String) : String := "must be between " ++ low ++ " and " ++ high

def message : Problem → String
  | .notAnObject => "event must be a JSON object"
  | .tooLarge size max =>
    "event size " ++ toString size ++ " bytes exceeds maximum of " ++ toString max ++ " bytes"
  | .reserved => "field is reserved for server metadata"
  | .unexpected => "unexpected field"
  | .typeNotString => "type must be a string"
  | .unknownType quoted => "Invalid event type '" ++ quoted ++ "'"
  | .typeDisabled kind => "event type '" ++ kind.name ++ "' is not enabled"
  | .missing fields => "missing required fields: " ++ ", ".intercalate fields
  | .timestampNotNumber => "timestamp must be a number"
  | .timestampNegative => "timestamp must be a non-negative number"
  | .timestampFar tolerance =>
    "timestamp is more than " ++ toString tolerance ++ "s away from server time"
  | .gameIdNotString => "game_id must be a string"
  | .gameIdMalformed maxLength =>
    "game_id must be 1-" ++ toString maxLength ++ " characters of [A-Za-z0-9_-]"
  | .dataNotObject => "data must be an object"
  | .tooDeep max => "nesting depth exceeds maximum of " ++ toString max
  | .tooManyProperties count max =>
    "object has " ++ toString count ++ " properties, maximum is " ++ toString max
  | .keyTooLong max => "key exceeds maximum length of " ++ toString max
  | .tooManyElements count max =>
    "array has " ++ toString count ++ " elements, maximum is " ++ toString max
  | .notFinite => "number must be finite"
  | .truncated max => "string will be truncated to " ++ toString max ++ " characters"
  | .required => "field is required"
  | .negative => "must be non-negative"
  | .outsideReals low high => between (Layout.plain.text low) (Layout.plain.text high)
  | .outsideIntegers low high => between (toString low) (toString high)
  | .notNumber => "must be a number"
  | .notInteger => "must be an integer"
  | .notArray => "must be an array"
  | .unknownHand => "unknown hand type"
  | .noCards => "at least one card must be played"
  | .tooManyCards count max =>
    "too many cards played: " ++ toString count ++ " exceeds maximum hand size of " ++ toString max
  | .badRank => "invalid card rank"
  | .badSuit => "invalid card suit"
  | .badCardCode => "invalid card code"
  | .notCard => "card must be a \x7brank, suit\x7d object or card code"
  | .tooManyItems count max =>
    "shop offers " ++ toString count ++ " items, maximum is " ++ toString max
  | .itemNotObject => "shop item must be an object"

/-- Only a string that will be cut short is a warning. -/
def severity : Problem → Severity
  | .truncated _ => .warning
  | _ => .error

end Problem

/-- A problem at a place of the event. -/
structure Finding where
  field : String
  problem : Problem
deriving DecidableEq

namespace Finding

/-- The finding rejects the event. -/
def rejects (f : Finding) : Bool := f.problem.severity == .error

/-- The finding as one line. -/
def text (f : Finding) : String := f.field ++ ": " ++ f.problem.message

def notice (f : Finding) : Notice := ⟨f.field, f.problem.message, f.problem.severity⟩

end Finding

/-! ## Reports -/

def Report.capacity : Nat := 32

/-- The first findings of an event. -/
structure Report where
  findings : List Finding
  bounded : findings.length ≤ Report.capacity

namespace Report

def empty : Report := ⟨[], by decide⟩

/-- One more finding, unless the report is full. -/
def push (r : Report) (f : Finding) : Report :=
  if h : r.findings.length < capacity then
    ⟨r.findings ++ [f], by simp only [List.length_append, List.length_singleton]; omega⟩
  else r

def ofFindings (findings : List Finding) : Report := findings.foldl push empty

/-- No finding rejects the event. -/
def isValid (r : Report) : Bool := !r.findings.any Finding.rejects

def messages (r : Report) : List String := (r.findings.filter Finding.rejects).map Finding.text

end Report

end Ingress
