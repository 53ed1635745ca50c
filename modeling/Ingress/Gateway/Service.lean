import Ingress.Gateway.Basic

/-!
# Sessions of a gateway

* `Frame` : what a client sends; `Reply` : what it is sent;
* `Gateway.enter`, `Gateway.leave`, `Gateway.tell` : the registry changes, and its figures are written;
* `Gateway.register`, `Gateway.connect` : a session opens;
* `Gateway.depart` : a session ends;
* `Gateway.turn` : one turn of the loop of a session, in which a stop goes before the next frame;
* `Gateway.receive` : a frame of a session, with the replies to it;
* `Gateway.listen`, `Gateway.shutDown` : the gateway takes sessions, and stops; a session that is
  open then is sent one close frame as its last.
-/

namespace Ingress

/-- What a client sends. -/
inductive Frame where
  | text (s : String)
  | binary (bytes : ByteArray)
  | ping (payload : String)
  | pong (payload : String)
  | close

inductive Reply where
  | text (s : String)
  | pong (payload : String)
  | close (code : Nat) (reason : String)
deriving DecidableEq, Repr

/-- The reply with which a stop ends a session. -/
def Reply.goingAway : Reply := .close 1001 "server shutting down"

/-- A message may have so many times the size of an event before the session is dropped. -/
def frameSizeFactor : Nat := 8

namespace Frame

def size : Frame → Nat
  | .text s => s.utf8ByteSize
  | .binary bytes => bytes.size
  | _ => 0

end Frame

/-- A frame that a session has taken, with what happened to it if it was a message. -/
structure Receipt where
  frame : Frame
  outcome : Option Outcome

/-- What comes of one turn of a session: the frame that it takes, what its client is sent, whether it is over,
and the gateway after it, in whose registry the session still is. -/
structure Turn where
  taken : Option Receipt
  replies : List Reply
  isLast : Bool
  gateway : Gateway

namespace Gateway

/-- A figure is written. -/
def tell (g : Gateway) : Figure → Gateway
  | .gauge size => g.write fun l => l.setGauge Metrics.Name.connections size
  | .published size => { g with published := size }
  | .opened => g.write fun l => l.count Metrics.Name.connectionsOpened

def tellAll (g : Gateway) (figures : List Figure) : Gateway := figures.foldl tell g

/-- A session of a client enters the registry under an id that the caller has drawn; its serial
number comes back. -/
def enter (g : Gateway) (id client : String) : Nat × Gateway :=
  let (serial, registry) := g.registry.add ⟨id, client, .ofMillis g.clock⟩
  (serial, { g with registry })

def leave (g : Gateway) (serial : Nat) : Gateway := { g with registry := g.registry.remove serial }

/-- A session of a client enters the registry, and the figures follow. -/
def register (g : Gateway) (id client : String) : Nat × Gateway :=
  let (serial, g) := g.enter id client
  (serial, g.tellAll g.registry.entryFigures)

/-- A session of a client opens; a gateway that does not listen takes none. -/
def connect (g : Gateway) (id client : String) : Option Nat × Gateway :=
  if g.listening then
    let (serial, g) := g.register id client
    (some serial, g)
  else (none, g)

def depart (g : Gateway) (serial : Nat) : Gateway :=
  if g.registry.isOpen serial then
    let g := g.leave serial
    g.tellAll g.registry.figures
  else g

/-- The reply to a message, if outcomes are acknowledged and there is something to say. -/
def acknowledge (g : Gateway) (o : Outcome) : List Reply :=
  if g.settings.ackRejections then
    (o.acknowledgement?.map fun a => Reply.text a.toValue.render).toList
  else []

def message (g : Gateway) (client text : String) : Outcome × Gateway :=
  let (o, pipeline) := g.pipeline.message client text
  (o, { g with pipeline })

def binary (g : Gateway) (client : String) (bytes : ByteArray) : Outcome × Gateway :=
  let (o, pipeline) := g.pipeline.binary client bytes
  (o, { g with pipeline })

/-- The session of a serial number. -/
def session? (g : Gateway) (serial : Nat) : Option Session :=
  g.registry.live.find? fun s => s.serial == serial

/-- An open session takes a frame: messages go through the pipeline. One that is too large, one whose
processing breaks off, and a close frame are the last. -/
def hear (g : Gateway) (s : Session) (f : Frame) : Turn :=
  if frameSizeFactor * g.settings.limits.maxEventBytes < f.size then ⟨some ⟨f, none⟩, [], true, g⟩
  else
    match f with
    | .text text =>
      let (o, g) := g.message s.connection.client text
      ⟨some ⟨f, some o⟩, g.acknowledge o, o == .aborted, g⟩
    | .binary bytes =>
      let (o, g) := g.binary s.connection.client bytes
      ⟨some ⟨f, some o⟩, g.acknowledge o, o == .aborted, g⟩
    | .ping payload => ⟨some ⟨f, none⟩, [.pong payload], false, g⟩
    | .pong _ => ⟨some ⟨f, none⟩, [], false, g⟩
    | .close => ⟨some ⟨f, none⟩, [], true, g⟩

/-- One turn of the loop of a session: when the gateway stops, the session is sent a close frame and is over;
else it takes the next frame, or waits for one. What comes for a session that is not open is lost. -/
def turn (g : Gateway) (serial : Nat) (next : Option Frame) : Turn :=
  match g.session? serial with
  | none => ⟨none, [], false, g⟩
  | some s =>
    if g.stopping then ⟨none, [.goingAway], true, g⟩
    else
      match next with
      | none => ⟨none, [], false, g⟩
      | some f => g.hear s f

/-- The gateway after a turn of a session, from which the session departs if that was its last. -/
def afterTurn (serial : Nat) (t : Turn) : Gateway :=
  if t.isLast then t.gateway.depart serial else t.gateway

def receive (g : Gateway) (serial : Nat) (f : Frame) : List Reply × Gateway :=
  let t := g.turn serial (some f)
  (t.replies, afterTurn serial t)

/-- The gateway takes sessions, and its tasks run; nothing when it does already. -/
def listen (g : Gateway) : Gateway :=
  if g.listening then g
  else ({ g with listening := true, stopping := false }.startBatching.startReaper).startReport.2

/-- A stop begins, which every session is told of; nothing when the gateway does not listen. -/
def beginStop (g : Gateway) : Gateway := if g.listening then { g with stopping := true } else g

/-- Every open session takes its turn; the serial numbers of those that are sent a close frame come
back. -/
def closeSessions (g : Gateway) : List Nat × Gateway :=
  let serials := g.registry.live.map Session.serial
  (serials, serials.foldl (fun g serial => afterTurn serial (g.turn serial none)) g)

/-- A stop ends: no more sessions are taken, and the tasks end. -/
def endStop (g : Gateway) : Gateway := { g with listening := false, tasks := [] }

/-- The gateway stops: sessions are closed, what is accepted is delivered, and its tasks end. -/
def shutDown (g : Gateway) : List Nat × Gateway :=
  if g.listening then
    let (closed, g) := g.beginStop.closeSessions
    (closed, g.stopBatching.endStop)
  else ([], g)

end Gateway

end Ingress
