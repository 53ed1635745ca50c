import Ingress.Proofs.Double.OfNat
import Ingress.Proofs.Gateway.Line
import Mathlib

/-!
# A hall of sessions

Any number of sessions take their turns in any order, while their clients send, others connect, time passes
and the gateway may stop. The registry changes under a lock, and a session writes the figures of its change
after that, one with each of its next turns; so other sessions may come in between. Of the sessions that have
connected, the registry holds those that neither took a frame that ends them, nor had a message aborted, nor
were sent the close frame of a stop.

* `Hall`, `Hall.Step`, `Hall.exec` : a gateway with its sessions, and what can happen to them; `Stepped`,
  `stepped` : what a step does;
* `Attended` : the registry against the lines of the sessions;
* `Told` : the figures of sessions against the registry;
* `attended_step`, `told_step`, `kept_exec` : every step keeps both, and every run does; `attended_opening`,
  `told_opening` : they hold at the opening.
-/

namespace Ingress

open Metrics Gateway

/-! ## The hall -/

namespace Figure

def isGauge : Figure → Bool
  | .gauge _ => true
  | _ => false

def isPublished : Figure → Bool
  | .published _ => true
  | _ => false

end Figure

/-- A gateway with its sessions: how many have connected, and by their serial numbers their lines and the
figures that they have yet to write. For the record only, `last` is the session that changed the registry
last, and `gauged` and `counted` tell whether the gauge and the published number are of that change. -/
structure Hall where
  gateway : Gateway
  connected : Nat
  lines : Nat → Line
  due : Nat → List Figure
  last : Option Nat
  gauged : Bool
  counted : Bool

namespace Hall

/-- What can happen: a client connects, one that has connected sends a frame, a session takes its turn, a stop
of the gateway begins, or ends, something happens in the background, or a request is answered. -/
inductive Step where
  | connect (id client : String)
  | send (serial : Nat) (f : Frame)
  | turn (serial : Nat)
  | stop
  | finish
  | background (b : Background)
  | request (r : Http.Request)

def Step.isTurn (serial : Nat) : Step → Bool
  | .turn k => k == serial
  | _ => false

def Step.isStop : Step → Bool
  | .stop => true
  | _ => false

theorem Step.eq_stop {s : Step} (h : s.isStop = true) : s = .stop := by
  cases s with
  | stop => rfl
  | _ => cases h

theorem Step.eq_turn {s : Step} {k : Nat} (h : s.isTurn k = true) : s = .turn k := by
  cases s with
  | turn serial => rw [eq_of_beq h]
  | _ => cases h

theorem Step.ne_of_isTurn {k serial : Nat} (h : (Step.turn serial).isTurn k = false) : k ≠ serial :=
  fun heq => beq_eq_false_iff_ne.1 h heq.symm

def onLine (h : Hall) (serial : Nat) (f : Line → Line) : Hall :=
  { h with lines := Function.update h.lines serial (f (h.lines serial)) }

/-- A session has changed the registry, and has yet to write the figures. -/
def changed (h : Hall) (serial : Nat) (figures : List Figure) : Hall :=
  { h with
    due := Function.update h.due serial figures
    last := some serial
    gauged := false
    counted := false }

/-- A session writes a figure. -/
def tell (h : Hall) (serial : Nat) (figure : Figure) (rest : List Figure) : Hall :=
  { h with
    gateway := h.gateway.tell figure
    due := Function.update h.due serial rest
    gauged := if figure.isGauge then h.last == some serial else h.gauged
    counted := if figure.isPublished then h.last == some serial else h.counted }

def welcome (h : Hall) (id client : String) : Hall :=
  let (serial, g) := h.gateway.enter id client
  { h with gateway := g, connected := h.connected + 1 }.changed serial g.registry.entryFigures

/-- The turn that a session takes of its loop. -/
def next (h : Hall) (serial : Nat) : Turn := h.gateway.turn serial (h.lines serial).inbox.head?

/-- A session takes a turn of its loop, and leaves the registry if that was its last. -/
def attend (h : Hall) (serial : Nat) : Hall :=
  let t := h.next serial
  let g := t.gateway.leave serial
  if t.isLast then
    { h.onLine serial fun l => l.after t with gateway := g }.changed serial g.registry.figures
  else { h.onLine serial fun l => l.after t with gateway := t.gateway }

/-- A session writes the next figure that is due before it takes a turn of its loop. -/
def step (h : Hall) : Step → Hall
  | .connect id client => if h.gateway.listening then h.welcome id client else h
  | .send serial f => if serial < h.connected then h.onLine serial fun l => l.send f else h
  | .turn serial =>
    match h.due serial with
    | figure :: rest => h.tell serial figure rest
    | [] => h.attend serial
  | .stop => { h with gateway := h.gateway.beginStop }
  | .finish => if h.gateway.stopping then { h with gateway := h.gateway.endStop } else h
  | .background b => { h with gateway := h.gateway.proceed b }
  | .request r => { h with gateway := (Http.answer h.gateway r).2 }

def exec (h : Hall) (steps : List Step) : Hall := steps.foldl step h

/-- What a step does, and under which condition; one whose condition fails does nothing. -/
inductive Stepped (h : Hall) : Step → Hall → Prop
  | idles (s : Step) : Stepped h s h
  | connects (id client : String) (hlistening : h.gateway.listening = true) :
      Stepped h (.connect id client) (h.welcome id client)
  | sends {serial : Nat} (f : Frame) (hserial : serial < h.connected) :
      Stepped h (.send serial f) (h.onLine serial fun l => l.send f)
  | tells {serial : Nat} {figure : Figure} {rest : List Figure} (hdue : h.due serial = figure :: rest) :
      Stepped h (.turn serial) (h.tell serial figure rest)
  | attends {serial : Nat} (hdue : h.due serial = []) : Stepped h (.turn serial) (h.attend serial)
  | stops : Stepped h .stop { h with gateway := h.gateway.beginStop }
  | finishes (hstop : h.gateway.stopping = true) :
      Stepped h .finish { h with gateway := h.gateway.endStop }
  | proceeds (b : Background) : Stepped h (.background b) { h with gateway := h.gateway.proceed b }
  | answers (r : Http.Request) :
      Stepped h (.request r) { h with gateway := (Http.answer h.gateway r).2 }

theorem stepped (h : Hall) (s : Step) : Stepped h s (h.step s) := by
  unfold step
  cases s with
  | connect id client =>
    dsimp only
    split
    next hlistening => exact .connects id client hlistening
    next => exact .idles _
  | send serial f =>
    dsimp only
    split
    next hserial => exact .sends f hserial
    next => exact .idles _
  | turn serial =>
    dsimp only
    split
    next hdue => exact .tells hdue
    next hdue => exact .attends hdue
  | stop => exact .stops
  | finish =>
    dsimp only
    split
    next hstop => exact .finishes hstop
    next => exact .idles _
  | background b => exact .proceeds b
  | request r => exact .answers r

/-- A gateway that listens, to which nobody has connected. -/
def opening (c : Gateway.Config) (handlers : Aggregator.Handlers) (clock : Int) : Hall :=
  ⟨(build c handlers clock).listen, 0, fun _ => .fresh, fun _ => [], none, true, true⟩

end Hall

/-! ## Who is in the registry -/

/-- The registry holds the sessions that have connected and not ended; `served`, sessions are taken until a stop
has begun; `calm`, nobody is sent a close frame before that; `received`, every outcome is of one message. -/
structure Attended (c : Gateway.Config) (f : Front) (connected : Nat) (lines : Nat → Line) : Prop where
  settings : f.settings = c
  limits : f.limits = c.limits
  serials : f.registry.opened = connected
  live : f.registry.live.map Session.serial =
    (List.range connected).filter fun k => !(lines k).ended c.frameLimit
  absent : ∀ k, connected ≤ k → lines k = .fresh
  orderly : ∀ k, (lines k).Orderly c
  served : f.listening = false → f.stopping = true
  calm : f.stopping = false → ∀ k, ∀ r ∈ (lines k).replies, r.isClose = false
  received : f.received = (∑ k ∈ Finset.range connected, (lines k).outcomes.length) % counterBound

variable {c : Gateway.Config} {f : Front} {connected serial : Nat} {lines : Nat → Line} {l : Line}

/-- A sum when one of the values is another. -/
theorem sum_update {α : Type} (n : α → Nat) (f : Nat → α) {m k : Nat} (hk : k < m) (a : α) :
    ∑ j ∈ Finset.range m, n (Function.update f k a j) + n (f k) = ∑ j ∈ Finset.range m, n (f j) + n a := by
  have hmem := Finset.mem_range.2 hk
  have hothers : ∑ j ∈ (Finset.range m).erase k, n (Function.update f k a j) =
      ∑ j ∈ (Finset.range m).erase k, n (f j) :=
    Finset.sum_congr rfl fun j hj => by rw [Function.update_of_ne (Finset.ne_of_mem_erase hj)]
  rw [← Finset.add_sum_erase _ _ hmem, ← Finset.add_sum_erase _ (fun j => n (f j)) hmem, hothers,
    Function.update_self]
  omega

namespace Attended

theorem isOpen_iff (h : Attended c f connected lines) (k : Nat) : f.registry.isOpen k = true ↔
    k < connected ∧ (lines k).ended c.frameLimit = false := by
  have hmem : f.registry.isOpen k = true ↔ k ∈ f.registry.live.map Session.serial := by
    simp [Registry.isOpen]
  rw [hmem, h.live]
  simp

theorem size_eq (h : Attended c f connected lines) : f.registry.size =
    (List.range connected).countP fun k => !(lines k).ended c.frameLimit := by
  unfold Registry.size
  rw [← List.length_map Session.serial, h.live, List.countP_eq_length_filter]

/-- Figures that are written change nothing about who is there. -/
theorem tell (h : Attended c f connected lines) (figure : Figure) :
    Attended c (f.tell figure) connected lines := by
  cases figure <;>
    exact ⟨h.settings, h.limits, h.serials, h.live, h.absent, h.orderly, h.served, h.calm, h.received⟩

/-- A session opens. -/
theorem enter (h : Attended c f connected lines) (connection : Connection) :
    Attended c (f.enter connection) (connected + 1) lines := by
  have hfresh : lines connected = .fresh := h.absent connected le_rfl
  refine ⟨h.settings, h.limits, congrArg (· + 1) h.serials, ?_, ?_, h.orderly, h.served, h.calm, ?_⟩
  · show (f.registry.live ++ [(⟨f.registry.opened, connection⟩ : Session)]).map Session.serial = _
    rw [List.map_append, h.live, h.serials, List.range_succ, List.filter_append]
    simp [hfresh, Line.fresh, Line.ended]
  · exact fun k hk => h.absent k (Nat.le_of_succ_le hk)
  · rw [Finset.sum_range_succ, hfresh]
    exact h.received

theorem received_hear (h : Attended c f connected lines) (hserial : serial < connected) {o : Option Outcome}
    (houtcomes : l.outcomes = (lines serial).outcomes ++ o.toList) : (f.hear o).received =
      (∑ k ∈ Finset.range connected, (Function.update lines serial l k).outcomes.length) % counterBound := by
  have hsum := sum_update (fun l : Line => l.outcomes.length) lines hserial l
  rw [houtcomes, List.length_append, Nat.add_comm (List.length _), ← Nat.add_assoc] at hsum
  rw [Nat.add_right_cancel hsum]
  cases o with
  | none => exact h.received
  | some o =>
    show (f.received + 1) % counterBound = _
    rw [h.received, Nat.mod_add_mod]
    rfl

theorem orderly_update (h : Attended c f connected lines) (horderly : l.Orderly c) (k : Nat) :
    (Function.update lines serial l k).Orderly c := by
  rcases eq_or_ne k serial with rfl | hne
  · rwa [Function.update_self]
  · rw [Function.update_of_ne hne]
    exact h.orderly k

theorem calm_update (h : Attended c f connected lines)
    (hcalm : f.stopping = false → ∀ r ∈ l.replies, r.isClose = false) (hgoing : f.stopping = false)
    (k : Nat) : ∀ r ∈ (Function.update lines serial l k).replies, r.isClose = false := by
  rcases eq_or_ne k serial with rfl | hne
  · rw [Function.update_self]
    exact hcalm hgoing
  · rw [Function.update_of_ne hne]
    exact h.calm hgoing k

theorem absent_update (h : Attended c f connected lines) (hserial : serial < connected) (k : Nat)
    (hk : connected ≤ k) : Function.update lines serial l k = .fresh := by
  rw [Function.update_of_ne (Nat.ne_of_gt (hserial.trans_le hk))]
  exact h.absent k hk

/-- A line becomes another one, with the outcome of a message if one was processed, and the registry holds whom
the lines tell. -/
theorem replace (h : Attended c f connected lines) (hserial : serial < connected) (horderly : l.Orderly c)
    (hcalm : f.stopping = false → ∀ r ∈ l.replies, r.isClose = false) {o : Option Outcome}
    (houtcomes : l.outcomes = (lines serial).outcomes ++ o.toList) {live : List Session}
    (hlive : live.map Session.serial =
      (List.range connected).filter fun k => !(Function.update lines serial l k).ended c.frameLimit) :
    Attended c { f.hear o with registry := { f.registry with live } } connected
      (Function.update lines serial l) := by
  have hreceived := h.received_hear hserial houtcomes
  cases o <;>
    exact ⟨h.settings, h.limits, h.serials, hlive, h.absent_update hserial, h.orderly_update horderly, h.served,
      h.calm_update hcalm, hreceived⟩

/-- A frame may be processed on a line, and the session stays. -/
theorem stay (h : Attended c f connected lines) (hserial : serial < connected) (horderly : l.Orderly c)
    (hended : l.ended c.frameLimit = (lines serial).ended c.frameLimit)
    (hcalm : f.stopping = false → ∀ r ∈ l.replies, r.isClose = false) {o : Option Outcome}
    (houtcomes : l.outcomes = (lines serial).outcomes ++ o.toList) :
    Attended c (f.hear o) connected (Function.update lines serial l) := by
  have hkept : ∀ k, (Function.update lines serial l k).ended c.frameLimit =
      (lines k).ended c.frameLimit := by
    intro k
    rcases eq_or_ne k serial with rfl | hne
    · rw [Function.update_self, hended]
    · rw [Function.update_of_ne hne]
  have hlive : f.registry.live.map Session.serial =
      (List.range connected).filter fun k => !(Function.update lines serial l k).ended c.frameLimit := by
    simp only [hkept]
    exact h.live
  have hreplaced := h.replace hserial horderly hcalm houtcomes hlive
  cases o <;> exact hreplaced

/-- A frame may be processed on a line, and the session ends. -/
theorem leave (h : Attended c f connected lines) (hserial : serial < connected) (horderly : l.Orderly c)
    (hended : l.ended c.frameLimit = true)
    (hcalm : f.stopping = false → ∀ r ∈ l.replies, r.isClose = false) {o : Option Outcome}
    (houtcomes : l.outcomes = (lines serial).outcomes ++ o.toList) :
    Attended c ((f.hear o).leave serial) connected (Function.update lines serial l) := by
  have hrest : ∀ k, (k != serial && !(lines k).ended c.frameLimit) =
      !(Function.update lines serial l k).ended c.frameLimit := by
    intro k
    rcases eq_or_ne k serial with rfl | hne
    · simp [hended]
    · simp [hne]
  have hremove : (f.registry.live.filter fun s => s.serial != serial).map Session.serial =
      (f.registry.live.map Session.serial).filter fun k => k != serial := by
    rw [List.filter_map]
    rfl
  have hlive : (f.registry.live.filter fun s => s.serial != serial).map Session.serial =
      (List.range connected).filter fun k => !(Function.update lines serial l k).ended c.frameLimit := by
    rw [hremove, h.live, List.filter_filter]
    simp only [hrest]
  have hreplaced := h.replace hserial horderly hcalm houtcomes hlive
  cases o <;> exact hreplaced

/-- A session takes its turn. -/
theorem turn {g : Gateway} {t : Turn} (h : Attended c g.front connected lines)
    (ht : Turned g serial (lines serial).inbox.head? t) :
    Attended c (if t.isLast then t.gateway.front.leave serial else t.gateway.front) connected
      (Function.update lines serial ((lines serial).after t)) := by
  cases ht with
  | idle _ hturn =>
    subst hturn
    rwa [Line.after_idle rfl rfl, Function.update_eq_self]
  | dismissed hpresent hstopping hturn =>
    subst hturn
    obtain ⟨hserial, hopen⟩ := (h.isOpen_iff serial).1 hpresent
    refine h.leave hserial ((h.orderly serial).dismissed hopen rfl rfl) ?_ ?_ (o := none) ?_
    · exact Line.ended_of_goingAway (List.mem_append_right _ (List.mem_singleton.2 rfl))
    · intro hgoing
      cases hstopping.symm.trans hgoing
    · simp [Line.after, Line.outcomes]
  | heard s f hs hgoing hnext htaken hgateway htexts hclose hlast =>
    obtain ⟨hserial, hopen⟩ := (h.isOpen_iff serial).1 (isOpen_of_session? hs).2
    obtain ⟨-, hreplies⟩ := Line.ended_eq_false.1 hopen
    have hsettings : g.settings = c := h.settings
    have hprocessed := g.isSome_process s.connection.client f
    rw [hsettings] at hprocessed htexts hlast
    have horderly := (h.orderly serial).heard hopen hnext htaken hprocessed htexts hclose fun hm =>
      process_not_aborted (by rwa [show g.pipeline.limits = c.limits from h.limits]) _ f
    have hcalm : ∀ r ∈ ((lines serial).after t).replies, r.isClose = false :=
      List.forall_mem_append.2 ⟨hreplies, hclose⟩
    have hended := Line.ended_after hopen htaken hclose
    rw [← hlast] at hended
    have houtcomes := Line.outcomes_after (l := lines serial) htaken
    rw [hgateway, front_process]
    cases hl : t.isLast with
    | true => exact h.leave hserial horderly (hended.trans hl) (fun _ => hcalm) houtcomes
    | false =>
      exact h.stay hserial horderly ((hended.trans hl).trans hopen.symm) (fun _ => hcalm) houtcomes

end Attended

/-! ## What is told of the registry -/

/-- What is told of the registry. `owed`, the session that changed it last has yet to write figures of the present
number of sessions; `gauge`, `published`, what is of that change is right; `opened`, every session is counted or
has yet to be. -/
structure Told (f : Front) (connected : Nat) (due : Nat → List Figure) (last : Option Nat)
    (gauged counted : Bool) : Prop where
  absent : ∀ k, connected ≤ k → due k = []
  owed : ∀ k, last = some k → ∀ figure ∈ due k, figure ∈ f.registry.entryFigures
  gauge : gauged = true → f.gauge = .ofNat f.registry.size
  published : counted = true → f.published = f.registry.size
  opened : ∃ told, told + ∑ k ∈ Finset.range connected, (due k).count .opened = connected ∧
    f.opened = told % counterBound

namespace Told

variable {due : Nat → List Figure} {last : Option Nat} {gauged counted : Bool}

theorem hear (h : Told f connected due last gauged counted) (o : Option Outcome) :
    Told (f.hear o) connected due last gauged counted := by
  cases o <;> exact ⟨h.absent, h.owed, h.gauge, h.published, h.opened⟩

/-- A session opens. -/
theorem enter (h : Told f connected due last gauged counted) (hserials : f.registry.opened = connected)
    (connection : Connection) :
    Told (f.enter connection) (connected + 1)
      (Function.update due f.registry.opened (f.enter connection).registry.entryFigures)
      (some f.registry.opened) false false := by
  rw [hserials]
  refine ⟨fun k hk => ?_, fun k hk figure hfigure => ?_, nofun, nofun, ?_⟩
  · rw [Function.update_of_ne (by omega)]
    exact h.absent k (by omega)
  · obtain rfl := Option.some.inj hk
    rwa [Function.update_self] at hfigure
  · have hothers : ∑ k ∈ Finset.range connected, (Function.update due connected
        (f.enter connection).registry.entryFigures k).count .opened =
          ∑ k ∈ Finset.range connected, (due k).count .opened :=
      Finset.sum_congr rfl fun k hk => by
        rw [Function.update_of_ne (Nat.ne_of_lt (Finset.mem_range.1 hk))]
    obtain ⟨told, hall, hopened⟩ := h.opened
    refine ⟨told, ?_, hopened⟩
    rw [Finset.sum_range_succ, hothers, Function.update_self,
      show (f.enter connection).registry.entryFigures.count .opened = 1 from rfl, ← Nat.add_assoc, hall]

/-- A session that has nothing to write leaves the registry. -/
theorem leave (h : Told f connected due last gauged counted) (hserial : serial < connected)
    (hdue : due serial = []) :
    Told (f.leave serial) connected (Function.update due serial (f.leave serial).registry.figures)
      (some serial) false false := by
  refine ⟨fun k hk => ?_, fun k hk figure hfigure => ?_, nofun, nofun, ?_⟩
  · rw [Function.update_of_ne (Nat.ne_of_gt (hserial.trans_le hk))]
    exact h.absent k hk
  · obtain rfl := Option.some.inj hk
    rw [Function.update_self] at hfigure
    exact List.mem_append_left _ hfigure
  · have hsum := sum_update (List.count Figure.opened) due hserial (f.leave serial).registry.figures
    rw [hdue, List.count_nil, show (f.leave serial).registry.figures.count Figure.opened = 0 from rfl] at hsum
    rw [Nat.add_right_cancel hsum]
    exact h.opened

/-- A session writes a figure. -/
theorem tell (h : Told f connected due last gauged counted) {figure : Figure} {rest : List Figure}
    (hdue : due serial = figure :: rest) :
    Told (f.tell figure) connected (Function.update due serial rest) last
      (if figure.isGauge then last == some serial else gauged)
      (if figure.isPublished then last == some serial else counted) := by
  have hserial : serial < connected := by
    by_contra hge
    rw [h.absent serial (not_lt.1 hge)] at hdue
    cases hdue
  have habsent : ∀ k, connected ≤ k → Function.update due serial rest k = [] := by
    intro k hk
    rw [Function.update_of_ne (Nat.ne_of_gt (hserial.trans_le hk))]
    exact h.absent k hk
  have howed : ∀ k, last = some k → ∀ figure ∈ Function.update due serial rest k,
      figure ∈ f.registry.entryFigures := by
    intro k hk figure hfigure
    rcases eq_or_ne k serial with rfl | hne
    · rw [Function.update_self] at hfigure
      exact h.owed k hk figure (hdue ▸ List.mem_cons_of_mem _ hfigure)
    · rw [Function.update_of_ne hne] at hfigure
      exact h.owed k hk figure hfigure
  have hright : last = some serial → figure ∈ f.registry.entryFigures := fun hlast =>
    h.owed serial hlast figure (hdue ▸ List.mem_cons_self)
  have hsum := sum_update (List.count Figure.opened) due hserial rest
  rw [hdue, List.count_cons] at hsum
  obtain ⟨told, hall, hopened⟩ := h.opened
  cases figure with
  | gauge size =>
    refine ⟨habsent, howed, fun hlast => ?_, h.published, told, ?_, hopened⟩
    · have hsize : size = f.registry.size := by
        simpa [Registry.entryFigures, Registry.figures] using hright (beq_iff_eq.1 hlast)
      rw [hsize]
      rfl
    · rw [Nat.add_right_cancel hsum]
      exact hall
  | published size =>
    refine ⟨habsent, howed, h.gauge, fun hlast => ?_, told, ?_, hopened⟩
    · have hsize : size = f.registry.size := by
        simpa [Registry.entryFigures, Registry.figures] using hright (beq_iff_eq.1 hlast)
      exact hsize
    · rw [Nat.add_right_cancel hsum]
      exact hall
  | opened =>
    refine ⟨habsent, howed, h.gauge, h.published, told + 1, ?_, ?_⟩
    · simp only [beq_self_eq_true, if_true] at hsum
      omega
    · show (f.opened + 1) % counterBound = _
      rw [hopened, Nat.mod_add_mod]

end Told

namespace Hall

variable {h : Hall}

/-! ## Every step -/

/-- Who is in the registry of a hall. -/
def IsAttended (c : Gateway.Config) (h : Hall) : Prop :=
  Attended c h.gateway.front h.connected h.lines

/-- What is told of the registry of a hall. -/
def IsTold (h : Hall) : Prop :=
  Told h.gateway.front h.connected h.due h.last h.gauged h.counted

theorem next_turned (h : Hall) (k : Nat) : Turned h.gateway k (h.lines k).inbox.head? (h.next k) :=
  turn_turned ..

theorem attended_attend (ha : h.IsAttended c) (serial : Nat) : (h.attend serial).IsAttended c := by
  have hturn := ha.turn (h.next_turned serial)
  unfold attend
  dsimp only
  split
  next hlast =>
    rw [if_pos hlast] at hturn
    exact hturn
  next hgoing =>
    rw [if_neg hgoing] at hturn
    exact hturn

theorem attended_step (ha : h.IsAttended c) (s : Step) : (h.step s).IsAttended c := by
  have hstep := h.stepped s
  generalize h.step s = h' at hstep
  cases hstep with
  | idles => exact ha
  | connects id client => exact ha.enter ⟨id, client, .ofMillis h.gateway.clock⟩
  | @sends serial f hserial =>
    exact ha.stay hserial ((ha.orderly serial).send f) rfl (fun hgoing => ha.calm hgoing serial)
      (o := none) (List.append_nil _).symm
  | @tells serial figure rest =>
    show Attended c (h.gateway.tell figure).front h.connected h.lines
    rw [front_tell]
    exact ha.tell figure
  | attends => exact attended_attend ha _
  | stops =>
    show Attended c h.gateway.beginStop.front h.connected h.lines
    rw [front_beginStop]
    refine { ha with served := fun hidle => ?_, calm := fun hgoing => ha.calm ?_ }
    · exact (congrArg (h.gateway.listening || ·) (ha.served hidle)).trans (Bool.or_true _)
    · exact (Bool.or_eq_false_iff.1 hgoing).2
  | finishes hstop => exact { ha with served := fun _ => hstop }
  | proceeds b =>
    show Attended c (h.gateway.proceed b).front h.connected h.lines
    rwa [front_proceed]
  | answers r =>
    show Attended c (Http.answer h.gateway r).2.front h.connected h.lines
    rwa [front_answer]

theorem told_attend (ha : h.IsAttended c) (ht : h.IsTold) {serial : Nat} (hdue : h.due serial = []) :
    (h.attend serial).IsTold := by
  have hturned := h.next_turned serial
  obtain ⟨o, hfront⟩ := hturned.front
  have hafter : Told (h.next serial).gateway.front h.connected h.due h.last h.gauged h.counted := by
    rw [hfront]
    exact ht.hear o
  unfold attend
  dsimp only
  split
  next hlast =>
    have hserial := ((ha.isOpen_iff serial).1 (hturned.isOpen_of_isLast hlast)).1
    exact hafter.leave hserial hdue
  next => exact hafter

theorem told_step (ha : h.IsAttended c) (ht : h.IsTold) (s : Step) : (h.step s).IsTold := by
  have hstep := h.stepped s
  generalize h.step s = h' at hstep
  cases hstep with
  | idles => exact ht
  | connects id client => exact ht.enter ha.serials ⟨id, client, .ofMillis h.gateway.clock⟩
  | sends => exact ht
  | @tells serial figure rest hdue =>
    show Told (h.gateway.tell figure).front h.connected _ _ _ _
    rw [front_tell]
    exact ht.tell hdue
  | attends hdue => exact told_attend ha ht hdue
  | stops =>
    show Told h.gateway.beginStop.front h.connected h.due h.last h.gauged h.counted
    rw [front_beginStop]
    exact { ht with }
  | finishes => exact { ht with }
  | proceeds b =>
    show Told (h.gateway.proceed b).front h.connected h.due h.last h.gauged h.counted
    rwa [front_proceed]
  | answers r =>
    show Told (Http.answer h.gateway r).2.front h.connected h.due h.last h.gauged h.counted
    rwa [front_answer]

theorem kept_exec (ha : h.IsAttended c) (ht : h.IsTold) (steps : List Step) :
    (h.exec steps).IsAttended c ∧ (h.exec steps).IsTold := by
  induction steps generalizing h with
  | nil => exact ⟨ha, ht⟩
  | cons s rest ih => exact ih (attended_step ha s) (told_step ha ht s)

theorem attended_opening (c : Gateway.Config) (handlers : Aggregator.Handlers) (clock : Int) :
    (opening c handlers clock).IsAttended c := by
  show Attended c (build c handlers clock).listen.front 0 fun _ => .fresh
  rw [front_listen _ rfl]
  exact
    { settings := rfl
      limits := rfl
      serials := rfl
      live := rfl
      absent := fun _ _ => rfl
      orderly := fun _ => Line.orderly_fresh c
      served := fun hidle => nomatch hidle
      calm := fun _ _ => List.forall_mem_nil _
      received := rfl }

theorem told_opening (c : Gateway.Config) (handlers : Aggregator.Handlers) (clock : Int) :
    (opening c handlers clock).IsTold := by
  show Told (build c handlers clock).listen.front 0 (fun _ => []) none true true
  rw [front_listen _ rfl]
  exact
    { absent := fun _ _ => rfl
      owed := fun _ _ => List.forall_mem_nil _
      gauge := fun _ => Double.ofNat_zero.symm
      published := fun _ => rfl
      opened := ⟨0, rfl, rfl⟩ }

end Hall

end Ingress
