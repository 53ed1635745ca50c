import Ingress.RateLimit.Client
import Ingress.Table
import Ingress.Text.Order

/-!
# The rate limiter

* `Limiter` : the clients that hold state;
* `Limiter.check`, `usage`, `top`, `cleanup` : the operations at a time, each with the limiter after
  it; reading prunes the windows it reads;
* `ClientReport` : a client with its usage, busier ones first by `ClientReport.busier`.
-/

namespace Ingress.RateLimit

open Json

/-- The clients that hold state. -/
structure Limiter where
  config : RateLimit.Config
  clients : Table String Client

structure ClientReport where
  client : String
  usage : Usage
deriving DecidableEq, Repr

namespace ClientReport

/-- The own fields of a report; those of its usage stand beside them. -/
def record : Record ClientReport :=
  { name := "ClientReport"
    blank := ⟨"", 0, 0, 0⟩
    fields := [.of "client_id" .string fun s r => { r with client := s }] }

def decode : Decoder ClientReport :=
  record.decodeWith Usage.record fun r u => { r with usage := u }

def toValue (r : ClientReport) : Value :=
  .object (("client_id", .string r.client) :: r.usage.toFields)

/-- The order of reports: more admissions in the sustained window, then more rejections, then the
lesser id. -/
def busier (a b : ClientReport) : Bool :=
  if a.usage.sustained ≠ b.usage.sustained then decide (b.usage.sustained < a.usage.sustained)
  else if a.usage.rejections ≠ b.usage.rejections then
    decide (b.usage.rejections < a.usage.rejections)
  else Text.le a.client b.client

end ClientReport

namespace Limiter

def ofConfig (config : RateLimit.Config) : Limiter := ⟨config, .empty⟩

/-- A check of a client at a time; a malformed id leaves no state. -/
def check (l : Limiter) (id : String) (now : Int) : Admission × Limiter :=
  if isClientId id then
    let (answer, client) := ((l.clients.get? id).getD (.fresh now)).check l.config now
    (answer, { l with clients := l.clients.insert id client })
  else (.invalidClient, l)

/-- The usage of a client at a time, if it holds state. -/
def usage (l : Limiter) (id : String) (now : Int) : Option Usage × Limiter :=
  match l.clients.get? id with
  | none => (none, l)
  | some client =>
    let client := client.pruned l.config now
    (some client.usage, { l with clients := l.clients.insert id client })

/-- The busiest clients at a time, at most `limit`. -/
def top (l : Limiter) (limit : Nat) (now : Int) : List ClientReport × Limiter :=
  let clients := l.clients.map fun _ client => client.pruned l.config now
  let reports := clients.entries.map fun e => (⟨e.1, e.2.usage⟩ : ClientReport)
  ((reports.mergeSort ClientReport.busier).take limit, { l with clients })

def count (l : Limiter) : Nat := l.clients.size

/-- Forgets the clients whose last check is a sustained window ago, and says how many. -/
def cleanup (l : Limiter) (now : Int) : Nat × Limiter :=
  let clients := l.clients.filter fun _ client =>
    decide (span client.lastSeen now < l.config.sustainedWindow)
  (l.clients.size - clients.size, { l with clients })

end Limiter

end Ingress.RateLimit
