import Ingress.Event.Kind
import Ingress.Json.Printer

/-!
# Events

* `Event` : a game event; `client` and `receivedAt` are set by the gateway;
* `Event.ofValue` : the event of a JSON value;
* `Event.toFields`, `Event.toValue`, `Event.render` : its JSON object and text, with fields in their order
  and empty ones left out;
* `Event.stamp` : an event with the gateway's own data.
-/

namespace Ingress

structure Event where
  kind : Kind
  timestamp : Double
  gameId : String
  data : Json.Fields
  client : Option String
  receivedAt : Option Instant

namespace Event

open Json

/-- The event in which absent fields have their defaults. -/
def blank : Event :=
  { kind := .heartbeat, timestamp := .zero, gameId := "", data := [], client := none,
    receivedAt := none }

instance : Inhabited Event := ⟨blank⟩

def record : Record Event :=
  { name := "Event"
    blank := blank
    fields :=
      [.of "type" Kind.decoder fun k e => { e with kind := k },
        .of "timestamp" .double fun t e => { e with timestamp := t },
        .of "game_id" .string fun g e => { e with gameId := g },
        (Field.of "data" (.map .any) fun d e => { e with data := d }).withDefault,
        (Field.of "client_id" (.optional .string) fun c e => { e with client := c }).withDefault,
        (Field.of "received_at" (.optional .instant) fun t e =>
          { e with receivedAt := t }).withDefault] }

def ofValue (v : Value) : Except DecodeError Event := record.decode v

/-- The fields of the JSON object of an event, empty ones left out. -/
def toFields (e : Event) : Fields :=
  [("type", .string e.kind.name), ("timestamp", .ofDouble e.timestamp),
    ("game_id", .string e.gameId)]
  ++ (if e.data.isEmpty then [] else [("data", .object e.data)])
  ++ (e.client.map fun c => ("client_id", .string c)).toList
  ++ (e.receivedAt.map fun t => ("received_at", .string t.render)).toList

def toValue (e : Event) : Value := .object e.toFields

def render (e : Event) : String := e.toValue.render

/-- The event with the gateway's own data: the client it came from and when. -/
def stamp (e : Event) (client : String) (receivedAt : Instant) : Event :=
  { e with client := some client, receivedAt := some receivedAt }

def beq (a b : Event) : Bool :=
  a.kind == b.kind && a.timestamp.same b.timestamp && a.gameId == b.gameId
    && fieldsBeq a.data b.data && a.client == b.client && a.receivedAt == b.receivedAt

instance : BEq Event := ⟨beq⟩

end Event

end Ingress
