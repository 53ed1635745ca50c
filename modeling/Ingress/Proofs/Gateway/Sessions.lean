import Ingress.Http.Router
import Ingress.Proofs.Gateway.Accounting
import Mathlib

/-!
# One turn of a session

The loop of a session has one way to go on and four ways to leave: it takes a frame and answers; a frame
ends it, or a message whose processing breaks off, or the stop of the gateway, which goes before any frame. Nothing
else that happens to a gateway touches the registry, nor what is told of it.

* `Frame.ends`, `Frame.isHeard`, `Receipt.ends` : what ends a session, and the frames that are processed;
* `Front`, `Gateway.front` : what sessions see of a gateway;
* `Front.enter`, `Front.leave`, `Front.tell`, `Front.hear` : a session opens or ends, a figure is written, a
  message is processed;
* `front_tell`, `front_process`, `front_proceed`, `front_answer`, `front_beginStop`, `front_listen` : the steps
  of a gateway as steps of its front;
* `Gateway.process` : what the pipeline makes of a frame;
* `Turned`, `turn_turned` : what comes of one turn.
-/

namespace Ingress

open Metrics

/-- The bytes that the transport lets a message have. -/
def Gateway.Config.frameLimit (c : Gateway.Config) : Nat := frameSizeFactor * c.limits.maxEventBytes

namespace Frame

/-- Text and binary frames are messages. -/
def isMessage : Frame → Bool
  | .text _ => true
  | .binary _ => true
  | _ => false

def isClose : Frame → Bool
  | .close => true
  | _ => false

/-- A frame that ends its session. -/
def ends (limit : Nat) (f : Frame) : Bool := f.isClose || decide (limit < f.size)

/-- A message that is processed. -/
def isHeard (limit : Nat) (f : Frame) : Bool := f.isMessage && decide (f.size ≤ limit)

end Frame

/-- The session is over with a frame that ends it, or a message whose processing breaks off. -/
def Receipt.ends (limit : Nat) (r : Receipt) : Bool := r.frame.ends limit || r.outcome == some .aborted

namespace Reply

def text? : Reply → Option String
  | .text s => some s
  | _ => none

def isClose : Reply → Bool
  | .close _ _ => true
  | _ => false

end Reply

/-! ## The front of a gateway -/

/-- What sessions see of a gateway: whether it takes sessions and is about to stop, the limits of messages, the
registry with what is told of it, and the counter of messages. -/
structure Front where
  settings : Gateway.Config
  limits : Limits
  listening : Bool
  stopping : Bool
  registry : Registry
  published : Nat
  gauge : Double
  opened : Nat
  received : Nat

namespace Front

def enter (f : Front) (connection : Connection) : Front :=
  { f with registry := (f.registry.add connection).2 }

def leave (f : Front) (serial : Nat) : Front := { f with registry := f.registry.remove serial }

def tell (f : Front) : Figure → Front
  | .gauge size => { f with gauge := .ofNat size }
  | .published size => { f with published := size }
  | .opened => { f with opened := (f.opened + 1) % counterBound }

def hear (f : Front) : Option Outcome → Front
  | none => f
  | some _ => { f with received := (f.received + 1) % counterBound }

end Front

namespace Gateway

def front (g : Gateway) : Front where
  settings := g.settings
  limits := g.pipeline.limits
  listening := g.listening
  stopping := g.stopping
  registry := g.registry
  published := g.published
  gauge := g.ledger.attendance.1
  opened := g.ledger.attendance.2
  received := g.ledger.counter Name.received

variable {g g' : Gateway} {serial : Nat} {next : Option Frame}

/-- Writes that leave the figures of sessions and of messages as they were do not show. -/
theorem front_of_ledger (hsettings : g'.settings = g.settings)
    (hlimits : g'.pipeline.limits = g.pipeline.limits) (hlistening : g'.listening = g.listening)
    (hstopping : g'.stopping = g.stopping) (hregistry : g'.registry = g.registry)
    (hpublished : g'.published = g.published) (hattendance : g'.ledger.attendance = g.ledger.attendance)
    (hreceived : g'.ledger.counter Name.received = g.ledger.counter Name.received) :
    g'.front = g.front := by
  unfold front
  rw [hsettings, hlimits, hlistening, hstopping, hregistry, hpublished, hattendance, hreceived]

theorem gauge_setGauge (l : Ledger) (name : String) (n : Nat) :
    (l.setGauge name n).metrics.gauge Name.connections =
      if Name.connections = name then .ofNat n else l.metrics.gauge Name.connections := by
  have hkey : Key.of Name.connections [] = Key.of name [] ↔ Name.connections = name := by simp [Key.of]
  show ((l.metrics.gauges.insert (.of name []) (.ofNat n)).get? (.of Name.connections [])).getD .zero = _
  rw [Table.get?_insert]
  simp only [hkey]
  split <;> rfl

theorem attendance_setGauge (l : Ledger) {name : String} (h : name ≠ Name.connections) (n : Nat) :
    (l.setGauge name n).attendance = l.attendance :=
  congrArg (·, l.counter Name.connectionsOpened) ((gauge_setGauge l name n).trans (if_neg h.symm))

/-! ## Steps of the front -/

theorem front_tell (g : Gateway) (figure : Figure) : (g.tell figure).front = g.front.tell figure := by
  cases figure with
  | gauge size =>
    have hgauge := gauge_setGauge g.ledger Name.connections size
    rw [if_pos rfl] at hgauge
    exact congrArg (fun d => { g.front with gauge := d }) hgauge
  | published size => rfl
  | opened =>
    have hfigures : (g.ledger.count Name.connectionsOpened).attendance =
        (g.ledger.attendance.1, (g.ledger.attendance.2 + 1) % counterBound) :=
      congrArg (g.ledger.metrics.gauge Name.connections, ·)
        ((g.ledger.counter_count _ _).trans (if_pos rfl))
    have hreceived : (g.ledger.count Name.connectionsOpened).counter Name.received =
        g.ledger.counter Name.received :=
      (g.ledger.counter_count _ _).trans (if_neg (by decide))
    unfold front
    rw [show (g.tell .opened).ledger = g.ledger.count Name.connectionsOpened from rfl, hfigures, hreceived]
    rfl

/-- A message changes nothing that shows but the counter of messages. -/
theorem front_of_answers {g : Gateway} {client : String} {S : Event → Prop} {r : Outcome × Pipeline}
    (h : Pipeline.Answers g.pipeline client S r) :
    ({ g with pipeline := r.2 } : Gateway).front = g.front.hear (some r.1) := by
  have hattendance : r.2.ledger.attendance = g.ledger.attendance := h.attendance
  have hreceived : r.2.ledger.counter Name.received = (g.ledger.counter Name.received + 1) % counterBound :=
    h.ledger.received
  unfold front
  rw [show ({ g with pipeline := r.2 } : Gateway).ledger = r.2.ledger from rfl, hattendance, hreceived,
    show ({ g with pipeline := r.2 } : Gateway).pipeline.limits = _ from h.limits]
  rfl

theorem attendance_keptByWriting (v : Double × Nat) :
    Aggregator.KeptByWriting (fun _ => True) fun l => l.attendance = v where
  note := fun _ _ _ hl => hl
  increment := fun l name k labels hname hl => by
    have hother : name ≠ Name.connectionsOpened := by
      rintro rfl
      exact absurd hname (by decide)
    exact (l.attendance_increment hother k labels).trans hl
  observe := fun _ _ _ _ hl => hl
  setGauge := fun l _ n hname hl => (attendance_setGauge l hname n).trans hl
  pass := fun _ _ hl => hl

/-- Nothing in the background touches the registry. -/
theorem registry_keptInBackground (g : Gateway) : KeptInBackground fun b =>
    b.settings = g.settings ∧ b.listening = g.listening ∧ b.stopping = g.stopping ∧
      b.registry = g.registry ∧ b.published = g.published where
  perform := fun b duty h => by cases duty <;> exact h
  tasks := fun _ _ h => h
  start := fun _ h => h
  halt := fun _ h => h
  pass := fun _ _ h => h
  advance := fun _ h => h
  conclude := fun _ h => h

theorem front_proceed (g : Gateway) (b : Background) : (g.proceed b).front = g.front := by
  obtain ⟨hsettings, hlistening, hstopping, hregistry, hpublished⟩ :=
    (registry_keptInBackground g).keeps_proceed g b ⟨rfl, rfl, rfl, rfl, rfl⟩
  have hattendance :=
    ((holds_keptInBackground (attendance_keptByWriting g.ledger.attendance)).keeps_proceed g b
      ⟨fun _ _ => trivial, fun _ _ => trivial, fun _ _ _ _ => trivial, rfl⟩).ledger
  exact front_of_ledger hsettings ((limits_keptInBackground g.pipeline.limits).keeps_proceed g b rfl)
    hlistening hstopping hregistry hpublished hattendance (g.counter_background b _ (by decide))

theorem front_refreshGauges (g : Gateway) : (Http.refreshGauges g).front = g.front := by
  have hattendance : (Http.refreshGauges g).ledger.attendance = g.ledger.attendance :=
    (attendance_setGauge _ (by decide) _).trans (attendance_setGauge g.ledger (by decide) _)
  exact front_of_ledger rfl rfl rfl rfl rfl rfl hattendance rfl

/-- Requests only read, but for gauges of their own. -/
theorem front_answer (g : Gateway) (r : Http.Request) : (Http.answer g r).2.front = g.front := by
  have hroute : ∀ route, (Http.answerRoute g r route).2.front = g.front := by
    intro route
    cases route with
    | metrics => exact g.front_refreshGauges
    | metricsJson => exact g.front_refreshGauges
    | _ => rfl
  unfold Http.answer Http.answerHead
  dsimp only
  split
  · rfl
  · split
    · rfl
    · split
      · exact hroute _
      · split
        · split
          · rfl
          · exact hroute _
        · rfl

theorem front_beginStop (g : Gateway) : g.beginStop.front =
    { g.front with stopping := g.listening || g.stopping } := by
  unfold beginStop
  cases hlistening : g.listening with
  | true => simp [front, hlistening, ledger]
  | false => simp [front, hlistening]

theorem front_listen (g : Gateway) (hidle : g.listening = false) :
    g.listen.front = { g.front with listening := true, stopping := false } := by
  have htasks : ∀ b : Gateway, b.startBatching.startReaper.startReport.2.front = b.front := by
    intro b
    have hreaper : b.startBatching.startReaper.front = b.front :=
      (b.startBatching.front_proceed (.spawn _)).trans (b.front_proceed .start)
    unfold startReport
    split
    · exact hreaper
    · exact (b.startBatching.startReaper.front_proceed (.spawn _)).trans hreaper
  unfold listen
  rw [hidle, if_neg (by decide)]
  exact htasks _

/-! ## One turn -/

theorem session?_eq_none : g.session? serial = none ↔ g.registry.isOpen serial = false := by
  unfold session? Registry.isOpen
  rw [List.find?_eq_none, List.any_eq_false]

theorem isOpen_of_session? {s : Session} (h : g.session? serial = some s) :
    s.serial = serial ∧ g.registry.isOpen serial = true := by
  have hserial := List.find?_some h
  exact ⟨beq_iff_eq.1 hserial, List.any_eq_true.2 ⟨s, List.mem_of_find?_eq_some h, hserial⟩⟩

/-- The texts that are sent for outcomes, if they are acknowledged; there is none for a message that is
aborted. -/
def acknowledgements (c : Gateway.Config) (outcomes : List Outcome) : List String :=
  if c.ackRejections then
    outcomes.filterMap fun o => o.acknowledgement?.map fun a => a.toValue.render
  else []

/-- What the pipeline makes of a frame of a client, if that is a message of a proper size. -/
def process (g : Gateway) (client : String) (f : Frame) : Option Outcome × Gateway :=
  if f.size ≤ g.settings.frameLimit then
    match f with
    | .text text => (some (g.message client text).1, (g.message client text).2)
    | .binary bytes => (some (g.binary client bytes).1, (g.binary client bytes).2)
    | _ => (none, g)
  else (none, g)

theorem isSome_process (g : Gateway) (client : String) (f : Frame) :
    (g.process client f).1.isSome = f.isHeard g.settings.frameLimit := by
  unfold process Frame.isHeard
  split
  · next hfits => cases f <;> simp [Frame.isMessage, hfits]
  · next hlarge => simp [hlarge]

/-- If the magnitude is a number, no message is aborted. -/
theorem process_not_aborted {g : Gateway} (hm : Sanitize.IsMagnitude g.pipeline.limits.maxMagnitude)
    (client : String) (f : Frame) : (g.process client f).1 ≠ some .aborted := by
  unfold process
  split
  · cases f with
    | text text =>
      exact fun ho => (Pipeline.message_answers _ client text).not_aborted hm (Option.some.inj ho)
    | binary bytes =>
      exact fun ho => (Pipeline.binary_answers _ client bytes).not_aborted hm (Option.some.inj ho)
    | _ => exact nofun
  · exact nofun

theorem front_process (g : Gateway) (client : String) (f : Frame) :
    (g.process client f).2.front = g.front.hear (g.process client f).1 := by
  unfold process
  split
  · cases f with
    | text text =>
      exact front_of_answers (r := g.pipeline.message client text) (Pipeline.message_answers _ client text)
    | binary bytes =>
      exact front_of_answers (r := g.pipeline.binary client bytes) (Pipeline.binary_answers _ client bytes)
    | _ => rfl
  · rfl

/-- What comes of one turn. Either there is nothing to do, since the session is not open, or since no frame
has come and no stop begun; or a stop ends the session; or the next frame is taken and processed, and may
end the session. -/
inductive Turned (g : Gateway) (serial : Nat) (next : Option Frame) (t : Turn) : Prop
  | idle (nothing : g.registry.isOpen serial = true → g.stopping = false ∧ next = none)
      (turn : t = ⟨none, [], false, g⟩)
  | dismissed (present : g.registry.isOpen serial = true) (stopping : g.stopping = true)
      (turn : t = ⟨none, [.goingAway], true, g⟩)
  | heard (s : Session) (f : Frame) (session : g.session? serial = some s)
      (going : g.stopping = false) (next : next = some f)
      (taken : t.taken = some ⟨f, (g.process s.connection.client f).1⟩)
      (gateway : t.gateway = (g.process s.connection.client f).2)
      (texts : t.replies.filterMap Reply.text? =
        acknowledgements g.settings (g.process s.connection.client f).1.toList)
      (no_close : ∀ r ∈ t.replies, r.isClose = false)
      (isLast : t.isLast =
        Receipt.ends g.settings.frameLimit ⟨f, (g.process s.connection.client f).1⟩)

theorem Turned.isOpen_of_isLast {t : Turn} (h : Turned g serial next t) (hlast : t.isLast = true) :
    g.registry.isOpen serial = true := by
  cases h with
  | idle _ hturn =>
    subst hturn
    cases hlast
  | dismissed hpresent => exact hpresent
  | heard _ _ hs => exact (isOpen_of_session? hs).2

/-- A turn shows in the counter of messages at most. -/
theorem Turned.front {t : Turn} (h : Turned g serial next t) :
    ∃ o, t.gateway.front = g.front.hear o := by
  cases h with
  | idle _ hturn =>
    subst hturn
    exact ⟨none, rfl⟩
  | dismissed _ _ hturn =>
    subst hturn
    exact ⟨none, rfl⟩
  | heard _ _ _ _ _ _ hgateway =>
    rw [hgateway]
    exact ⟨_, front_process g _ _⟩

theorem texts_acknowledge (g : Gateway) (o : Outcome) :
    (g.acknowledge o).filterMap Reply.text? = acknowledgements g.settings [o] := by
  unfold acknowledge acknowledgements
  split
  · rw [List.filterMap_cons, List.filterMap_nil]
    cases o.acknowledgement? <;> rfl
  · rfl

theorem no_close_acknowledge (g : Gateway) (o : Outcome) : ∀ r ∈ g.acknowledge o, r.isClose = false := by
  unfold acknowledge
  split
  · cases o.acknowledgement? with
    | none => simp
    | some a => simp [Reply.isClose]
  · exact List.forall_mem_nil _

theorem acknowledgements_nil (c : Gateway.Config) : acknowledgements c [] = [] := by
  unfold acknowledgements
  split <;> rfl

/-- A message of a proper size that is processed. -/
theorem turned_of_process {s : Session} {f : Frame} {o : Outcome} {g' : Gateway}
    (hs : g.session? serial = some s) (hgoing : g.stopping = false)
    (hprocess : g.process s.connection.client f = (some o, g')) (hsettings : g'.settings = g.settings)
    (hopen : f.ends g.settings.frameLimit = false) :
    Turned g serial (some f) ⟨some ⟨f, some o⟩, g'.acknowledge o, o == .aborted, g'⟩ := by
  refine .heard s f hs hgoing rfl ?_ ?_ ?_ (no_close_acknowledge _ _) ?_
  · rw [hprocess]
  · rw [hprocess]
  · rw [hprocess, ← hsettings]
    exact texts_acknowledge g' o
  · rw [hprocess]
    simp [Receipt.ends, hopen]

/-- A frame that is not processed. -/
theorem turned_of_unheard {s : Session} {f : Frame} {replies : List Reply} {last : Bool}
    (hs : g.session? serial = some s) (hgoing : g.stopping = false)
    (hprocess : g.process s.connection.client f = (none, g))
    (htexts : replies.filterMap Reply.text? = []) (hclose : ∀ r ∈ replies, r.isClose = false)
    (hlast : last = f.ends g.settings.frameLimit) :
    Turned g serial (some f) ⟨some ⟨f, none⟩, replies, last, g⟩ := by
  refine .heard s f hs hgoing rfl ?_ ?_ ?_ hclose ?_
  · rw [hprocess]
  · rw [hprocess]
  · rw [hprocess]
    exact htexts.trans (acknowledgements_nil _).symm
  · rw [hprocess]
    simp [Receipt.ends, hlast]

theorem hear_turned {s : Session} (hs : g.session? serial = some s) (hgoing : g.stopping = false)
    (f : Frame) : Turned g serial (some f) (g.hear s f) := by
  unfold hear
  split
  · next hlarge =>
    have hlimit : g.settings.frameLimit < f.size := hlarge
    exact turned_of_unheard hs hgoing (if_neg (not_le.2 hlimit)) rfl (List.forall_mem_nil _)
      (by simp [Frame.ends, hlimit])
  · next hfits =>
    have hlimit : f.size ≤ g.settings.frameLimit := not_lt.1 hfits
    have hends : f.ends g.settings.frameLimit = f.isClose := by simp [Frame.ends, hlimit]
    cases f with
    | text text => exact turned_of_process hs hgoing (if_pos hlimit) rfl hends
    | binary bytes => exact turned_of_process hs hgoing (if_pos hlimit) rfl hends
    | ping payload =>
      exact turned_of_unheard hs hgoing (if_pos hlimit) rfl (List.forall_mem_singleton.2 rfl) hends.symm
    | pong payload =>
      exact turned_of_unheard hs hgoing (if_pos hlimit) rfl (List.forall_mem_nil _) hends.symm
    | close =>
      exact turned_of_unheard hs hgoing (if_pos hlimit) rfl (List.forall_mem_nil _) hends.symm

/-- A turn does one of three things. -/
theorem turn_turned (g : Gateway) (serial : Nat) (next : Option Frame) :
    Turned g serial next (g.turn serial next) := by
  unfold turn
  cases hs : g.session? serial with
  | none =>
    have habsent := session?_eq_none.1 hs
    exact .idle (fun hopen => by rw [habsent] at hopen; cases hopen) rfl
  | some s =>
    obtain ⟨-, hpresent⟩ := isOpen_of_session? hs
    cases hstopping : g.stopping with
    | true => exact .dismissed hpresent hstopping rfl
    | false =>
      cases next with
      | none => exact .idle (fun _ => ⟨hstopping, rfl⟩) rfl
      | some f => exact hear_turned hs hstopping f

end Gateway

end Ingress
