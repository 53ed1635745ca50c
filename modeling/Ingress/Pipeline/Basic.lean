import Ingress.Aggregator.Basic
import Ingress.Json.Parser
import Ingress.Pipeline.Outcome
import Ingress.RateLimit.Limiter
import Ingress.Sanitize
import Ingress.Validation.Validator

/-!
# The message pipeline

A message runs through size check, JSON, rate limit, validation, sanitizing, and intake. The first
of them that refuses it decides the outcome, which is counted once. Sanitizing does not refuse a message,
but it may break off, and then nothing is counted but that there was a message.

* `Pipeline` : the limits, the rate limiter, and the aggregator with its ledger;
* `Pipeline.message`, `Pipeline.binary` : a text or a binary message of a client;
* `Pipeline.judge`, `checkRate`, `validate`, `sanitize`, `intake` : the pipeline from a stage on.
-/

namespace Ingress

open Metrics RateLimit

/-- The limits, the rate limiter, and the aggregator. -/
structure Pipeline where
  limits : Limits
  limiter : Limiter
  aggregator : Aggregator

namespace Pipeline

/-- The number of errors that a security event lists. -/
def reportedErrors : Nat := 5

/-- A client's first rejection raises a security event, and then every one at this distance. -/
def reportEvery : Nat := 10

def clock (p : Pipeline) : Int := p.aggregator.clock

def ledger (p : Pipeline) : Ledger := p.aggregator.ledger

def write (p : Pipeline) (f : Ledger → Ledger) : Pipeline :=
  { p with aggregator := p.aggregator.write f }

def count (p : Pipeline) (name : String) : Pipeline := p.write fun l => l.count name

def countSecurity (p : Pipeline) (name type client : String) (details : Json.Value) : Pipeline :=
  p.write fun l => (l.count name).security type client details

/-! ## From the last stage to the first -/

def enqueue (p : Pipeline) (client : String) (e : Event) : Outcome × Pipeline :=
  let (taken, aggregator) := p.aggregator.add (e.stamp client (.ofMillis p.clock))
  let p := { p with aggregator }
  if taken then (.accepted, p.count Name.processed)
  else (.refused .queueFull "event queue full", p)

/-- The sanitized value becomes an event. -/
def intake (p : Pipeline) (client : String) (v : Json.Value) : Outcome × Pipeline :=
  match Event.ofValue v with
  | .ok e => p.enqueue client e
  | .error e =>
    (.refused .schemaViolation ("serialization error: " ++ e.message),
      p.count Name.processingErrors)

def invalidDetails (errors : List String) : Json.Value :=
  .object [("errors", .ofStrings (errors.take reportedErrors))]

/-- A valid value is sanitized. What was written about the message so far stays when that breaks off. -/
def sanitize (p : Pipeline) (client : String) (v : Json.Value) : Outcome × Pipeline :=
  match Sanitize.event? p.limits v with
  | some v => p.intake client v
  | none => (.aborted, p)

/-- The value is validated, and goes on if it is valid. -/
def validate (p : Pipeline) (client : String) (v : Json.Value) : Outcome × Pipeline :=
  let report := Validation.validate p.limits p.clock v
  if report.isValid then p.sanitize client v
  else
    (.rejected .schemaViolation report.messages,
      p.countSecurity Name.invalidEvents Name.invalidSchema client (invalidDetails report.messages))

def rateDetails (window : String) (rejections : Nat) (usage : Option Usage) : Json.Value :=
  .object [("rejections", .ofNat rejections),
    ("usage", (usage.map fun u => Json.Value.object (Json.sortFields u.toFields)).getD .null),
    ("window", .string window)]

/-- A rejection by the rate limiter; some of them raise a security event. -/
def refuseRate (p : Pipeline) (client window : String) (rejections : Nat) : Outcome × Pipeline :=
  let outcome := Outcome.refused .rateLimited (window ++ " rate limit exceeded")
  if rejections = 1 ∨ rejections % reportEvery = 0 then
    let (usage, limiter) := p.limiter.usage client p.clock
    (outcome,
      { p with limiter }.countSecurity Name.rateLimited Name.rateExceeded client
        (rateDetails window rejections usage))
  else (outcome, p.count Name.rateLimited)

def checkRate (p : Pipeline) (client : String) (v : Json.Value) : Outcome × Pipeline :=
  let (answer, limiter) := p.limiter.check client p.clock
  let p := { p with limiter }
  match answer with
  | .admitted => p.validate client v
  | .invalidClient =>
    (.refused .invalidClient "invalid client id",
      p.countSecurity Name.rateLimited Name.invalidClient client (.object []))
  | .burstExceeded rejections => p.refuseRate client "burst" rejections
  | .sustainedExceeded rejections => p.refuseRate client "sustained" rejections

def oversizedText (size max : Nat) : String :=
  "event size " ++ toString size ++ " bytes exceeds maximum of " ++ toString max ++ " bytes"

/-- The size of the text is checked, then it is read. -/
def judge (p : Pipeline) (client text : String) : Outcome × Pipeline :=
  let size := text.utf8ByteSize
  let max := p.limits.maxEventBytes
  if max < size then
    (.refused .eventTooLarge (oversizedText size max),
      p.countSecurity Name.invalidEvents Name.oversized client
        (.object [("max", .ofNat max), ("size", .ofNat size)]))
  else
    match Json.parse? text with
    | none => (.refused .invalidFormat "Invalid JSON format", p.count Name.invalidMessages)
    | some v => p.checkRate client v

def message (p : Pipeline) (client text : String) : Outcome × Pipeline :=
  let begun := p.clock
  let (outcome, p) := (p.count Name.received).judge client text
  (outcome, p.write fun l => l.observe Name.messageMs (l.elapsedSince begun) [])

/-- A binary message of a client, which is to hold UTF-8 text. -/
def binary (p : Pipeline) (client : String) (bytes : ByteArray) : Outcome × Pipeline :=
  match String.fromUTF8? bytes with
  | some text => p.message client text
  | none =>
    (.refused .invalidFormat "binary frame is not valid UTF-8",
      (p.count Name.received).count Name.invalidMessages)

end Pipeline

end Ingress
