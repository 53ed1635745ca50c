import Ingress.Config.RateLimit
import Ingress.Json.Decode

/-!
# One client of the rate limiter

* `isClientId` : the ids a client may have;
* `Admission` : what a check answers;
* `prune` : a window without the admissions that have left it;
* `Client` : the admissions in both windows, oldest first, the rejections, and the last check;
* `Client.check` : a check at a time; an admission enters both windows;
* `Usage`, `Client.usage` : how full the windows are.

Times are milliseconds; a span between two times is at least `0`, also when the later one is given
first.
-/

namespace Ingress.RateLimit

def maxClientIdLength : Nat := 64

/-- The characters of a client id: an address needs the colon and the brackets. -/
def isClientChar (c : Char) : Bool :=
  ('A' ≤ c && c ≤ 'Z') || ('a' ≤ c && c ≤ 'z') || ('0' ≤ c && c ≤ '9') ||
    c == '_' || c == '.' || c == ':' || c == '-' || c == '[' || c == ']'

def isClientId (id : String) : Bool :=
  1 ≤ id.length && id.length ≤ maxClientIdLength && id.toList.all isClientChar

/-- What a check answers; a refusal carries the client's rejections so far. -/
inductive Admission where
  | admitted
  | burstExceeded (rejections : Nat)
  | sustainedExceeded (rejections : Nat)
  | invalidClient
deriving DecidableEq, Repr

namespace Admission

def name : Admission → String
  | .admitted => "admitted"
  | .burstExceeded _ => "burst_exceeded"
  | .sustainedExceeded _ => "sustained_exceeded"
  | .invalidClient => "invalid_client"

def rejections : Admission → Nat
  | .burstExceeded n => n
  | .sustainedExceeded n => n
  | _ => 0

def isAdmitted (a : Admission) : Bool := a == .admitted

end Admission

/-- The time from `earlier` to `later`, at least `0`. -/
def span (earlier later : Int) : Nat := (later - earlier).toNat

/-- A window without the oldest admissions that are `width` old. -/
def prune (now : Int) (width : Nat) (window : List Int) : List Int :=
  window.dropWhile fun t => width ≤ span t now

structure Client where
  burst : List Int
  sustained : List Int
  rejections : Nat
  lastSeen : Int
deriving DecidableEq, Repr

structure Usage where
  burst : Nat
  sustained : Nat
  rejections : Nat
deriving DecidableEq, Repr

namespace Client

def fresh (now : Int) : Client := ⟨[], [], 0, now⟩

/-- Both windows as of a time. -/
def pruned (c : Client) (cfg : RateLimit.Config) (now : Int) : Client :=
  { c with
    burst := prune now cfg.burstWindow c.burst
    sustained := prune now cfg.sustainedWindow c.sustained }

/-- A check at a time: refused when a window is full, the burst window first; else it enters
both. -/
def check (c : Client) (cfg : RateLimit.Config) (now : Int) : Admission × Client :=
  let c := { c.pruned cfg now with lastSeen := now }
  let rejections := c.rejections + 1
  if cfg.burstLimit ≤ c.burst.length then (.burstExceeded rejections, { c with rejections })
  else if cfg.sustainedLimit ≤ c.sustained.length then
    (.sustainedExceeded rejections, { c with rejections })
  else (.admitted, { c with burst := c.burst ++ [now], sustained := c.sustained ++ [now] })

/-- How full the windows are; pruned windows answer. -/
def usage (c : Client) : Usage := ⟨c.burst.length, c.sustained.length, c.rejections⟩

end Client

namespace Usage

open Json

def record : Record Usage :=
  { name := "ClientUsage"
    blank := ⟨0, 0, 0⟩
    fields :=
      [.of "burst" .size fun n u => { u with burst := n },
        .of "sustained" .size fun n u => { u with sustained := n },
        .of "rejections" .u64 fun n u => { u with rejections := n }] }

def toFields (u : Usage) : Fields :=
  [("burst", .ofNat u.burst), ("sustained", .ofNat u.sustained),
    ("rejections", .ofNat u.rejections)]

end Usage

end Ingress.RateLimit
