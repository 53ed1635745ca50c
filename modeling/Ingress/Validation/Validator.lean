import Ingress.Validation.Rules

/-!
# Validation of events

* `Validation.findings` : every finding of a value, in order: the size, the top-level keys, the
  kind, missing fields, the timestamp, the game id, the structure of the data, the rule of the kind;
* `Validation.validate` : the report of a value, which keeps the first of them.
-/

namespace Ingress.Validation

open Json

/-- The fields a client sends. -/
def clientFields : List String := ["type", "timestamp", "game_id", "data"]

/-- The fields the gateway sets. -/
def serverFields : List String := ["client_id", "received_at"]

/-- A key that a client may not send. -/
def keyFindings (key : String) : List Finding :=
  if serverFields.contains key then [⟨key, .reserved⟩]
  else if clientFields.contains key then []
  else [⟨Structure.quote key, .unexpected⟩]

/-- The enabled kind that a type names. -/
def kindOf (l : Limits) (fields : Fields) : Option Kind :=
  match lookup "type" fields with
  | some (.string name) => (Kind.ofName? name).filter l.allowedKinds.contains
  | _ => none

def typeFindings (l : Limits) (fields : Fields) : List Finding :=
  match lookup "type" fields with
  | none => []
  | some (.string name) =>
    match Kind.ofName? name with
    | none => [⟨"type", .unknownType (Structure.quote name)⟩]
    | some k => if l.allowedKinds.contains k then [] else [⟨"type", .typeDisabled k⟩]
  | some _ => [⟨"type", .typeNotString⟩]

/-- Whether data has to be there: not for an enabled heartbeat. -/
def needsData (l : Limits) (fields : Fields) : Bool :=
  ((kindOf l fields).map Kind.requiresData).getD true

def missingFields (l : Limits) (fields : Fields) : List String :=
  clientFields.filter fun f =>
    (lookup f fields).isNone && (f != "data" || needsData l fields)

/-- Missing fields are one finding. -/
def missingFindings (l : Limits) (fields : Fields) : List Finding :=
  let missing := missingFields l fields
  if missing.isEmpty then [] else [⟨"required_fields", .missing missing⟩]

/-- A timestamp in seconds: large ones count milliseconds. -/
def normalizeTimestamp (t : Double) : Double :=
  if Bounds.millisecondsAbove.lt t then t.div (real 1000) else t

def serverSeconds (nowMs : Int) : Double := (Double.ofInt nowMs).div (real 1000)

/-- The timestamp is farther from the server's time than the tolerance. -/
def isFar (l : Limits) (nowMs : Int) (t : Double) : Bool :=
  (real l.timestampTolerance).lt ((normalizeTimestamp t).sub (serverSeconds nowMs)).abs

/-- A timestamp has to be a non-negative number near the server's time. -/
def timestampFindings (l : Limits) (nowMs : Int) (fields : Fields) : List Finding :=
  match lookup "timestamp" fields with
  | none => []
  | some v =>
    match Rules.double? v with
    | none => [⟨"timestamp", .timestampNotNumber⟩]
    | some t =>
      if !t.isFinite || t.lt .zero then [⟨"timestamp", .timestampNegative⟩]
      else if isFar l nowMs t then [⟨"timestamp", .timestampFar l.timestampTolerance⟩]
      else []

/-- A game id is a bounded number of letters, digits, underscores and hyphens. -/
def isGameId (l : Limits) (id : String) : Bool :=
  1 ≤ id.length && id.length ≤ l.maxGameIdLength && id.toList.all Text.isIdentifier

def gameIdFindings (l : Limits) (fields : Fields) : List Finding :=
  match lookup "game_id" fields with
  | none => []
  | some (.string id) =>
    if isGameId l id then [] else [⟨"game_id", .gameIdMalformed l.maxGameIdLength⟩]
  | some _ => [⟨"game_id", .gameIdNotString⟩]

/-- Data has to be an object of bounded structure that keeps the rule of the kind. -/
def dataFindings (l : Limits) (fields : Fields) : List Finding :=
  match lookup "data" fields with
  | none => []
  | some (.object data) =>
    Structure.findings l "data" 1 (.object data)
      ++ ((kindOf l fields).map (Kind.findings l data)).getD []
  | some _ => [⟨"data", .dataNotObject⟩]

def fieldsFindings (l : Limits) (nowMs : Int) (fields : Fields) : List Finding :=
  fields.flatMap (fun f => keyFindings f.1)
    ++ typeFindings l fields
    ++ missingFindings l fields
    ++ timestampFindings l nowMs fields
    ++ gameIdFindings l fields
    ++ dataFindings l fields

/-- Every finding of a value, with no bound on their number. -/
def findings (l : Limits) (nowMs : Int) (v : Value) : List Finding :=
  match v with
  | .object fields =>
    let size := v.render.utf8ByteSize
    if l.maxEventBytes < size then [⟨"event", .tooLarge size l.maxEventBytes⟩]
    else fieldsFindings l nowMs fields
  | _ => [⟨"event", .notAnObject⟩]

/-- The report of a value at a server time in milliseconds. -/
def validate (l : Limits) (nowMs : Int) (v : Value) : Report := .ofFindings (findings l nowMs v)

end Ingress.Validation
