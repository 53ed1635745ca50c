import Ingress.Json.Decode

/-!
# Outcomes of messages

* `Rejection` : why a message is not forwarded, with its code and its reason;
* `Outcome` : a message is accepted, or rejected with errors, or its processing breaks off;
* `Outcome.acknowledgement?`, `Outcome.toValue` : the acknowledgement that a client is sent;
* `Acknowledgement` : an acknowledgement as a client reads it, with `Acknowledgement.decode`.
-/

namespace Ingress

open Json

/-- Why a message is not forwarded. -/
inductive Rejection where
  | invalidFormat
  | eventTooLarge
  | schemaViolation
  | rateLimited
  | invalidClient
  | queueFull
deriving DecidableEq, Repr

namespace Rejection

def all : List Rejection :=
  [.invalidFormat, .eventTooLarge, .schemaViolation, .rateLimited, .invalidClient, .queueFull]

def code : Rejection → String
  | .invalidFormat => "VALID_001"
  | .eventTooLarge => "VALID_002"
  | .schemaViolation => "VALID_003"
  | .rateLimited => "RATE_001"
  | .invalidClient => "RATE_002"
  | .queueFull => "QUEUE_001"

def reason : Rejection → String
  | .invalidFormat => "invalid_format"
  | .eventTooLarge => "event_too_large"
  | .schemaViolation => "schema_violation"
  | .rateLimited => "rate_limited"
  | .invalidClient => "invalid_client"
  | .queueFull => "queue_full"

def label : Rejection → String
  | .invalidFormat => "InvalidFormat"
  | .eventTooLarge => "EventTooLarge"
  | .schemaViolation => "SchemaViolation"
  | .rateLimited => "RateLimited"
  | .invalidClient => "InvalidClient"
  | .queueFull => "QueueFull"

end Rejection

/-- What happened to a message. One that is aborted has no outcome of its own: the task that processed it
breaks off, and with it the session of the client. -/
inductive Outcome where
  | accepted
  | rejected (why : Rejection) (errors : List String)
  | aborted
deriving DecidableEq, Repr

inductive Acknowledgement where
  | accepted
  | rejected (reason code : String) (errors : List String)
deriving DecidableEq, Repr

namespace Acknowledgement

def toValue : Acknowledgement → Value
  | .accepted => .object [("status", .string "accepted")]
  | .rejected reason code errors =>
    .object [("status", .string "rejected"), ("reason", .string reason), ("code", .string code),
      ("errors", .ofStrings errors)]

structure Refusal where
  reason : String
  code : String
  errors : List String

def refusalRecord : Record Refusal :=
  { name := "variant AckFrame::Rejected"
    blank := ⟨"", "", []⟩
    fields :=
      [.of "reason" .string fun s r => { r with reason := s },
        .of "code" .string fun s r => { r with code := s },
        .of "errors" (.list .string) fun es r => { r with errors := es }] }

/-- The status of an acknowledgement: whether it is a rejection. -/
def decodeStatus : Decoder Bool
  | .string s => Decoder.variantNamed [("accepted", false), ("rejected", true)] s
  | v => mismatch "variant identifier" v

def surplus {α : Type} (items : List Value) (fields : Nat) : Except DecodeError α :=
  .error (.invalidLength items.length (toString fields ++ " elements in sequence"))

/-- The acknowledgement of a list whose first element is the status. -/
def ofItems (status : Value) (items : List Value) : Except DecodeError Acknowledgement := do
  if ← decodeStatus status then
    let r := refusalRecord
    let (refusal, rest) ← r.putItems 0 r.fields items r.blank
    if rest.isEmpty then pure (.rejected refusal.reason refusal.code refusal.errors)
    else surplus items r.fields.length
  else if items.isEmpty then pure .accepted
  else surplus items 0

/-- The acknowledgement of an object with the status among its fields. -/
def ofFields (status : Value) (fields : Fields) : Except DecodeError Acknowledgement := do
  if ← decodeStatus status then
    let refusal ← refusalRecord.ofFields fields
    pure (.rejected refusal.reason refusal.code refusal.errors)
  else pure .accepted

def decode : Decoder Acknowledgement
  | .object fields =>
    match lookup "status" fields with
    | some status => ofFields status fields
    | none => .error (.missingField "status")
  | .array (status :: items) => ofItems status items
  | .array [] => .error (.missingField "status")
  | v => mismatch "internally tagged enum AckFrame" v

end Acknowledgement

namespace Outcome

def refused (why : Rejection) (error : String) : Outcome := .rejected why [error]

/-- What the client is told, if it is told anything. -/
def acknowledgement? : Outcome → Option Acknowledgement
  | .accepted => some .accepted
  | .rejected why errors => some (.rejected why.reason why.code errors)
  | .aborted => none

def toValue (o : Outcome) : Value := (o.acknowledgement?.map Acknowledgement.toValue).getD .null

end Outcome

end Ingress
