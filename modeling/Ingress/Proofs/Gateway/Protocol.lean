import Ingress.Proofs.Gateway.Operations
import Mathlib

/-!
# The protocol of sessions

An open session takes its frames in order, the gateway processes each once and acknowledges it, and nothing but a
frame that ends it, a message that is aborted or a stop ends a session. What is told of the registry is of its
last change, unless changes overlap.

* `attend_taking`, `untouched_step` : what sessions do to the gateway;
* `Hall.isPrompt`, `Timely`, `timely_exec` : runs in which the changes of the registry do not overlap;
* `Protocol`, `exec_protocol` : what holds at any point of any run; `figures_stale` : what may not.
-/

namespace Ingress

open Metrics Gateway

namespace Hall

variable {c : Gateway.Config} {h : Hall} {k : Nat}

/-! ## Turns of open sessions -/

/-- An open session takes the frame that waits longest, and what happens to the gateway is what the pipeline
makes of that. -/
theorem attend_taking (ha : h.IsAttended c) (hpresent : h.gateway.registry.isOpen k = true)
    (hgoing : h.gateway.stopping = false) {f : Frame} {rest : List Frame}
    (hinbox : (h.lines k).inbox = f :: rest) :
    ∃ s, h.gateway.session? k = some s ∧
      ((h.attend k).lines k).taken =
        (h.lines k).taken ++ [⟨f, (h.gateway.process s.connection.client f).1⟩] ∧
      (h.attend k).gateway =
        if Receipt.ends c.frameLimit ⟨f, (h.gateway.process s.connection.client f).1⟩ then
          (h.gateway.process s.connection.client f).2.leave k
        else (h.gateway.process s.connection.client f).2 := by
  have hsettings : h.gateway.settings = c := ha.settings
  have hturned := h.next_turned k
  rw [hinbox] at hturned
  cases hturned with
  | idle hnothing => cases (hnothing hpresent).2
  | dismissed _ hstop => cases hgoing.symm.trans hstop
  | heard s f' hs _ hnext htaken hgateway _ _ hlast =>
    obtain rfl := Option.some.inj hnext
    rw [hsettings] at hlast
    refine ⟨s, hs, ?_, ?_⟩
    · rw [lines_attend, Function.update_self]
      exact congrArg (fun t : Option Receipt => (h.lines k).taken ++ t.toList) htaken
    · rw [gateway_attend, hlast, hgateway]

/-- Nothing of the pipeline changes but figures and gauges. -/
structure Untouched (g g' : Gateway) : Prop where
  limits : g'.pipeline.limits = g.pipeline.limits
  limiter : g'.pipeline.limiter = g.pipeline.limiter
  aggregator : g'.aggregator = { g.aggregator with ledger := g'.ledger }
  journal : g'.ledger.journal = g.ledger.journal

theorem Untouched.refl (g : Gateway) : Untouched g g := ⟨rfl, rfl, rfl, rfl⟩

/-- A step of neither clients nor sessions nor a stop. -/
def Step.isOutside : Step → Bool
  | .background _ => true
  | .request _ => true
  | _ => false

/-- Of the others only a session that takes a frame touches the pipeline. -/
theorem untouched_step (h : Hall) {s : Step} (hs : s.isOutside = false)
    (htaken : ∀ k, s = .turn k → ((h.step s).lines k).taken = (h.lines k).taken) :
    Untouched h.gateway (h.step s).gateway := by
  have hstep := h.stepped s
  generalize h.step s = h' at hstep htaken
  cases hstep with
  | connects => exact ⟨rfl, rfl, rfl, rfl⟩
  | @tells serial figure rest =>
    show Untouched h.gateway (h.gateway.tell figure)
    cases figure <;> exact ⟨rfl, rfl, rfl, rfl⟩
  | @attends k hdue =>
    have hsame := htaken k rfl
    cases h.next_turned k with
    | idle _ hturn =>
      rw [attend_of_idle hturn]
      exact .refl _
    | dismissed _ _ hturn =>
      rw [gateway_attend, hturn]
      exact ⟨rfl, rfl, rfl, rfl⟩
    | heard _ _ _ _ _ hheard =>
      rw [lines_attend, Function.update_self] at hsame
      have hmore : (h.lines k).taken ++ (h.next k).taken.toList = (h.lines k).taken := hsame
      rw [hheard] at hmore
      simp at hmore
  | stops =>
    show Untouched h.gateway h.gateway.beginStop
    unfold Gateway.beginStop
    split
    · exact ⟨rfl, rfl, rfl, rfl⟩
    · exact .refl _
  | finishes => exact ⟨rfl, rfl, rfl, rfl⟩
  | proceeds => cases hs
  | answers => cases hs
  | _ => exact .refl _

/-! ## Changes that do not overlap -/

/-- All figures are written. -/
def isQuiet (h : Hall) : Bool := (List.range h.connected).all fun k => (h.due k).isEmpty

/-- The registry changes with a step. -/
def changes (h : Hall) : Step → Bool
  | .connect _ _ => h.gateway.listening
  | .turn k => (h.due k).isEmpty && (h.next k).isLast
  | _ => false

/-- In a run no change of the registry comes while a figure of another one has yet to be written. -/
def isPrompt (h : Hall) : List Step → Bool
  | [] => true
  | s :: rest => (!h.changes s || h.isQuiet) && (h.step s).isPrompt rest

theorem due_of_isQuiet (ht : h.IsTold) (hquiet : h.isQuiet = true) (k : Nat) : h.due k = [] := by
  by_cases hk : k < h.connected
  · exact List.isEmpty_iff.1 (List.all_eq_true.1 hquiet k (List.mem_range.2 hk))
  · exact ht.absent k (not_lt.1 hk)

/-- What of the last change is not told is yet to be written. -/
structure Timely (h : Hall) : Prop where
  only : ∀ k, h.due k ≠ [] → h.last = some k
  gauge : h.gauged = true ∨ ∃ k, (h.due k).any Figure.isGauge = true
  published : h.counted = true ∨ ∃ k, (h.due k).any Figure.isPublished = true

theorem timely_changed {figures : List Figure} (hquiet : ∀ j, h.due j = [])
    (hgauge : figures.any Figure.isGauge = true) (hpublished : figures.any Figure.isPublished = true)
    (serial : Nat) : (h.changed serial figures).Timely := by
  have hself : (h.changed serial figures).due serial = figures := Function.update_self ..
  refine ⟨fun k hk => ?_, .inr ⟨serial, by rwa [hself]⟩, .inr ⟨serial, by rwa [hself]⟩⟩
  rcases eq_or_ne k serial with rfl | hne
  · rfl
  · exact absurd ((Function.update_of_ne hne ..).trans (hquiet k)) hk

theorem timely_tell (ht : h.Timely) {figure : Figure} {rest : List Figure}
    (hdue : h.due k = figure :: rest) : (h.tell k figure rest).Timely := by
  have hlast : h.last = some k := ht.only k (by rw [hdue]; exact List.cons_ne_nil _ _)
  -- a figure that is due of another kind is due still
  have hdue' (p : Figure → Bool) (hp : p figure = false) (hany : ∃ j, (h.due j).any p = true) :
      ∃ j, ((h.tell k figure rest).due j).any p = true := by
    obtain ⟨j, hj⟩ := hany
    refine ⟨j, ?_⟩
    rcases eq_or_ne j k with rfl | hne
    · rw [hdue, List.any_cons, hp, Bool.false_or] at hj
      rwa [show (h.tell j figure rest).due j = rest from Function.update_self ..]
    · rwa [show (h.tell k figure rest).due j = h.due j from Function.update_of_ne hne ..]
  refine ⟨fun j hj => ?_, ?_, ?_⟩
  · rcases eq_or_ne j k with rfl | hne
    · exact hlast
    · exact ht.only j (by rwa [← show (h.tell k figure rest).due j = h.due j from Function.update_of_ne hne ..])
  · cases hfigure : figure.isGauge with
    | true => exact .inl (by simp [tell, hfigure, hlast])
    | false => exact ht.gauge.imp (by simp [tell, hfigure]) (hdue' _ hfigure)
  · cases hfigure : figure.isPublished with
    | true => exact .inl (by simp [tell, hfigure, hlast])
    | false => exact ht.published.imp (by simp [tell, hfigure]) (hdue' _ hfigure)

theorem timely_step (ht : h.Timely) {s : Step} (hprompt : h.changes s = true → ∀ j, h.due j = []) :
    (h.step s).Timely := by
  have hstep := h.stepped s
  generalize h.step s = h' at hstep
  cases hstep with
  | connects id client hlistening =>
    exact timely_changed
      (h := { h with gateway := (h.gateway.enter id client).2, connected := h.connected + 1 })
      (hprompt hlistening) rfl rfl _
  | tells hdue => exact timely_tell ht hdue
  | @attends k hdue =>
    unfold attend
    dsimp only
    split
    next hlast =>
      have hquiet := hprompt (by simp [changes, hdue, hlast])
      exact timely_changed (h := { h.onLine k fun l => l.after (h.next k) with
        gateway := (h.next k).gateway.leave k }) hquiet rfl rfl k
    next => exact ⟨ht.only, ht.gauge, ht.published⟩
  | _ => exact ⟨ht.only, ht.gauge, ht.published⟩

theorem timely_exec (ha : h.IsAttended c) (ht : h.IsTold) (htimely : h.Timely) {steps : List Step}
    (hprompt : h.isPrompt steps = true) : (h.exec steps).Timely := by
  induction steps generalizing h with
  | nil => exact htimely
  | cons s rest ih =>
    obtain ⟨hfirst, hrest⟩ := Bool.and_eq_true_iff.1 hprompt
    refine ih (attended_step ha s) (told_step ha ht s) (timely_step htimely fun hchanges => ?_) hrest
    rw [hchanges] at hfirst
    exact due_of_isQuiet ht hfirst

/-! ## The protocol -/

/-- The number of sessions that have connected and not ended. -/
def present (c : Gateway.Config) (h : Hall) : Nat :=
  (List.range h.connected).countP fun k => !(h.lines k).ended c.frameLimit

/-- What holds after the steps of a run.

* `stopping`, `served` : only a stop makes the gateway stop, and it takes sessions until then;
* `orderly`, `calm` : what every session has taken and sent;
* `taking`, `untouched` : an open session takes its frames, the gateway processes each when it is taken, and no other
  step of sessions touches the pipeline;
* `spared`, `unbroken` : a session stays open until a frame ends it, or a message is aborted, or a stop begins,
  whatever the outcomes are; and none is aborted in a gateway that can be run and whose magnitude is a number;
* `final` : a session that has ended takes and sends nothing, however the run goes on;
* `silent`, `dismissed` : after a stop has begun nothing is taken, and every open session is sent one close frame,
  with the first turn for which it has no figure to write, and nothing else;
* `connecting`, `receiving`, `shut`, `parted` : the operations of a gateway are runs, and a stop that waits for
  the sessions leaves none of them out;
* `numbered`, `isOpen_iff`, `size` : the sessions of the registry are those that have connected and not ended;
* `published`, `gauge` : what is of the last change of the registry is their number;
* `opened`, `received` : how many have connected, apart from those yet to be counted, and how many messages
  were processed. -/
structure Protocol (c : Gateway.Config) (steps : List Step) (h : Hall) : Prop where
  stopping : h.gateway.stopping = steps.any Step.isStop
  served : h.gateway.stopping = false → h.gateway.listening = true
  orderly : ∀ k, (h.lines k).Orderly c
  calm : h.gateway.stopping = false → ∀ k, ∀ r ∈ (h.lines k).replies, r.isClose = false
  taking : ∀ k f rest, h.gateway.registry.isOpen k = true → h.gateway.stopping = false → h.due k = [] →
    (h.lines k).inbox = f :: rest → ∃ s, h.gateway.session? k = some s ∧
      ((h.step (.turn k)).lines k).taken =
        (h.lines k).taken ++ [⟨f, (h.gateway.process s.connection.client f).1⟩] ∧
      (h.step (.turn k)).gateway =
        if Receipt.ends c.frameLimit ⟨f, (h.gateway.process s.connection.client f).1⟩ then
          (h.gateway.process s.connection.client f).2.leave k
        else (h.gateway.process s.connection.client f).2
  untouched : ∀ s : Step, s.isOutside = false →
    (∀ k, s = .turn k → ((h.step s).lines k).taken = (h.lines k).taken) →
      Untouched h.gateway (h.step s).gateway
  spared : h.gateway.stopping = false → ∀ k < h.connected,
    (∀ r ∈ (h.lines k).taken, r.ends c.frameLimit = false) → h.gateway.registry.isOpen k = true
  unbroken : c.check = .ok () → c.limits.maxMagnitude.isNaN = false →
    ∀ k, ∀ r ∈ (h.lines k).taken, r.outcome ≠ some .aborted
  final : ∀ k, (h.lines k).ended c.frameLimit = true → ∀ more,
    ((h.exec more).lines k).exchange = (h.lines k).exchange
  silent : h.gateway.stopping = true → ∀ k more, ((h.exec more).lines k).taken = (h.lines k).taken
  dismissed : h.gateway.stopping = true → ∀ k, h.gateway.registry.isOpen k = true → ∀ more,
    ((h.exec more).lines k).replies = (h.lines k).replies ++
      if (h.due k).length < more.countP (Step.isTurn k) then [.goingAway] else []
  connecting : h.gateway.listening = true → ∀ id client,
    (h.exec (.connect id client :: List.replicate 3 (.turn h.connected))).gateway =
      (h.gateway.connect id client).2
  receiving : ∀ k < h.connected, (h.lines k).inbox = [] → h.due k = [] → ∀ f,
    (h.exec (.send k f :: List.replicate 3 (.turn k))).gateway = (h.gateway.receive k f).2 ∧
      ((h.exec (.send k f :: List.replicate 3 (.turn k))).lines k).replies =
        (h.lines k).replies ++ (h.gateway.receive k f).1
  shut : h.gateway.listening = true → (∀ k, h.due k = []) →
    (h.exec h.shutDownSteps).gateway = h.gateway.shutDown.2
  parted : h.gateway.listening = true → ∀ k, h.gateway.registry.isOpen k = true → h.due k = [] →
    ((h.exec h.shutDownSteps).lines k).replies = (h.lines k).replies ++ [.goingAway]
  numbered : ∀ id client, (h.gateway.connect id client).1 =
    if h.gateway.listening then some h.connected else none
  isOpen_iff : ∀ k, h.gateway.registry.isOpen k = true ↔
    k < h.connected ∧ (h.lines k).ended c.frameLimit = false
  size : h.gateway.registry.size = h.present c
  published : h.counted = true → h.gateway.published = h.present c
  gauge : h.gauged = true → h.gateway.ledger.metrics.gauge Name.connections = .ofNat (h.present c)
  opened : h.gateway.ledger.counter Name.connectionsOpened =
    (h.connected - ∑ k ∈ Finset.range h.connected, (h.due k).count .opened) % counterBound
  received : h.gateway.ledger.counter Name.received =
    (∑ k ∈ Finset.range h.connected, (h.lines k).outcomes.length) % counterBound

/-- The figures of sessions are all right. -/
structure Figured (c : Gateway.Config) (h : Hall) : Prop where
  size : h.gateway.registry.size = h.present c
  published : h.gateway.published = h.present c
  gauge : h.gateway.ledger.metrics.gauge Name.connections = .ofNat (h.present c)
  opened : h.gateway.ledger.counter Name.connectionsOpened = h.connected % counterBound

theorem IsAttended.protocol {steps : List Step} (ha : h.IsAttended c) (ht : h.IsTold)
    (hstopping : h.gateway.stopping = steps.any Step.isStop) : Protocol c steps h where
  stopping := hstopping
  served := fun hgoing => by
    by_contra hidle
    cases hgoing.symm.trans (ha.served (Bool.eq_false_iff.2 hidle))
  orderly := ha.orderly
  calm := ha.calm
  taking := fun k f rest hpresent hgoing hdue hinbox => by
    rw [step_turn_free hdue]
    exact attend_taking ha hpresent hgoing hinbox
  untouched := fun _ hs htaken => h.untouched_step hs htaken
  spared := fun hgoing k hk hframes =>
    (ha.isOpen_iff k).2 ⟨hk, Line.ended_eq_false.2 ⟨hframes, ha.calm hgoing k⟩⟩
  unbroken := fun hchecked hnumber k =>
    (ha.orderly k).unbroken (Limits.isMagnitude (Config.limits_of_check hchecked) hnumber)
  final := fun _ hended more => exchange_exec_of_ended ha hended more
  silent := fun hstop k more => taken_exec_of_stopping hstop more k
  dismissed := fun hstop _ hpresent more => replies_exec_of_stopping ha hstop hpresent more
  connecting := exec_connect ha
  receiving := fun _ hk hempty hdue f => exec_receive hk hempty hdue f
  shut := gateway_exec_shutDown
  parted := fun hlistening _ hpresent hdue => replies_exec_shutDown ha hlistening hdue hpresent
  numbered := fun id client => by
    have hserial : h.gateway.registry.opened = h.connected := ha.serials
    unfold Gateway.connect
    split
    · exact congrArg some hserial
    · rfl
  isOpen_iff := ha.isOpen_iff
  size := ha.size_eq
  published := fun hcounted => (ht.published hcounted).trans ha.size_eq
  gauge := fun hgauged => (ht.gauge hgauged).trans (congrArg Double.ofNat ha.size_eq)
  opened := by
    obtain ⟨told, hall, hopened⟩ := ht.opened
    rw [Nat.sub_eq_of_eq_add hall.symm]
    exact hopened
  received := ha.received

theorem Timely.figured (htimely : h.Timely) (ha : h.IsAttended c) (ht : h.IsTold)
    (hquiet : h.isQuiet = true) : Figured c h := by
  have hdue := due_of_isQuiet ht hquiet
  have hnone (p : Figure → Bool) : ¬ ∃ k, (h.due k).any p = true := by
    rintro ⟨k, hk⟩
    rw [hdue k] at hk
    cases hk
  obtain ⟨told, hall, hopened⟩ := ht.opened
  have htold : told = h.connected := by simpa [hdue] using hall
  refine ⟨ha.size_eq, ?_, ?_, ?_⟩
  · exact (ht.published (htimely.published.resolve_right (hnone _))).trans ha.size_eq
  · exact (ht.gauge (htimely.gauge.resolve_right (hnone _))).trans (congrArg Double.ofNat ha.size_eq)
  · rw [← htold]
    exact hopened

/-- **However the sessions, the background and a stop take turns, the protocol is kept** at every point. If no
change of the registry comes while figures of another one have yet to be written, all figures are right
whenever all of them are written. -/
theorem exec_protocol (c : Gateway.Config) (handlers : Aggregator.Handlers) (clock : Int)
    (steps : List Step) :
    Protocol c steps ((opening c handlers clock).exec steps) ∧
      ((opening c handlers clock).isPrompt steps = true →
        ((opening c handlers clock).exec steps).isQuiet = true →
          Figured c ((opening c handlers clock).exec steps)) := by
  have ha := attended_opening c handlers clock
  have ht := told_opening c handlers clock
  have htimely : (opening c handlers clock).Timely :=
    ⟨fun _ hdue => absurd rfl hdue, .inl rfl, .inl rfl⟩
  have hgoing : (opening c handlers clock).gateway.stopping = false :=
    congrArg Front.stopping ((build c handlers clock).front_listen rfl)
  have hstopping := stopping_exec_eq ha steps
  rw [hgoing, Bool.false_or] at hstopping
  obtain ⟨ha', ht'⟩ := kept_exec ha ht steps
  exact ⟨ha'.protocol ht' hstopping, fun hprompt hquiet =>
    (timely_exec ha ht htimely hprompt).figured ha' ht' hquiet⟩

/-- Two sessions: one is left by its client, and a stop comes before the second frame of the other. -/
def sampleVisits : Hall :=
  (opening { Gateway.Config.standard with ackRejections := true } ⟨none, []⟩ 0).exec
    ([.connect "a" "127.0.0.1:40000", .turn 0, .turn 0, .turn 0, .connect "b" "127.0.0.1:40001", .turn 1,
      .turn 1, .turn 1, .send 0 (.text "["), .turn 0, .send 1 .close, .turn 1, .send 0 (.text "]"),
      .turn 1, .turn 1, .stop, .turn 0, .turn 1, .turn 0, .turn 0])

example : (sampleVisits.lines 0).taken.length = 1 ∧ (sampleVisits.lines 0).replies.length = 2 ∧
    (sampleVisits.lines 0).replies.getLast? = some .goingAway ∧ (sampleVisits.lines 1).replies = [] ∧
    sampleVisits.isQuiet = true ∧ sampleVisits.gateway.published = 0 := by
  decide +kernel

/-- A client leaves, and another one connects before the figures of that are written. -/
def sampleOverlap : Hall :=
  (opening .standard ⟨none, []⟩ 0).exec
    [.connect "a" "127.0.0.1:40000", .turn 0, .turn 0, .turn 0, .send 0 .close, .turn 0,
      .connect "b" "127.0.0.1:40001", .turn 1, .turn 1, .turn 1, .turn 0, .turn 0]

/-- A session with a message that is aborted. -/
def sampleBreak : Hall :=
  (opening { boundless with ackRejections := true } ⟨none, []⟩ 0).exec
    [.connect "a" "127.0.0.1:40000", .turn 0, .turn 0, .turn 0, .send 0 (.text fraction), .turn 0]

/-- In the first run all figures are written and tell of no session, but one is open. In the second the session
of a valid message is over before a stop, and was sent nothing. -/
theorem figures_stale :
    (sampleOverlap.isQuiet = true ∧ sampleOverlap.gateway.registry.size = 1 ∧
      sampleOverlap.present .standard = 1 ∧ sampleOverlap.gateway.published = 0 ∧
      sampleOverlap.gateway.ledger.metrics.gauge Name.connections = .ofNat 0) ∧
    sampleBreak.gateway.stopping = false ∧ sampleBreak.gateway.registry.size = 0 ∧
      (sampleBreak.lines 0).outcomes = [.aborted] ∧ (sampleBreak.lines 0).replies = [] := by
  decide +kernel

end Hall

end Ingress
