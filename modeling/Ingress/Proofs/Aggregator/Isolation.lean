import Ingress.Proofs.Aggregator.Schedule
import Mathlib

/-!
# Delivery handlers are isolated

Two aggregators are alike when they differ in nothing but their delivery handlers, their deliveries under
way, and what these have written. Up to the first stop alike aggregators remain alike, whatever their
delivery handlers do: the collector never waits for a delivery, and a batch is given to all delivery
handlers when the batch handler is through with it.

Once a stop has begun, the two may wait for their deliveries differently; as neither collects anything any
more, batches still go the same ways.

* `Alike`, `Abreast`, `Resting` : alike aggregators, before a stop and after it has begun;
* `Alike.dispatch`, `gather`, `deliver`, ... : what the steps keep;
* `upToStop` : runs up to the first stop; `Abreast.exec` : what such runs keep;
* `exec_isolates` : a delivery handler does not matter to anything but itself.
-/

namespace Ingress.Aggregator

open Ledger (Moves)

/-! ## Alike aggregators -/

/-- The same but for the phase, the delivery handlers and their deliveries. -/
structure Alike (a b : Aggregator) : Prop where
  settings : b.settings = a.settings
  batchHandler : b.handlers.batchHandler = a.handlers.batchHandler
  deliveryHandlers : b.handlers.deliveryHandlers.length = a.handlers.deliveryHandlers.length
  accepting : b.accepting = a.accepting
  queue : b.queue = a.queue
  run : b.run = a.run
  stats : b.stats = a.stats
  clock : b.clock = a.clock
  pending : b.pending = a.pending
  traffic : b.ledger.traffic = a.ledger.traffic

/-- Alike, and no stop has begun. -/
structure Abreast (a b : Aggregator) : Prop extends Alike a b where
  phase : b.phase = a.phase
  unstopped : a.drainDeadline? = none

/-- Alike, and neither collects. -/
structure Resting (a b : Aggregator) : Prop extends Alike a b where
  first : a.isRunning = false
  second : b.isRunning = false

variable {a b c : Aggregator}

namespace Alike

theorem refl (a : Aggregator) : Alike a a := ⟨rfl, rfl, rfl, rfl, rfl, rfl, rfl, rfl, rfl, rfl⟩

theorem symm (h : Alike a b) : Alike b a :=
  ⟨h.settings.symm, h.batchHandler.symm, h.deliveryHandlers.symm, h.accepting.symm, h.queue.symm,
    h.run.symm, h.stats.symm, h.clock.symm, h.pending.symm, h.traffic.symm⟩

theorem trans (h : Alike a b) (h' : Alike b c) : Alike a c :=
  ⟨h'.settings.trans h.settings, h'.batchHandler.trans h.batchHandler,
    h'.deliveryHandlers.trans h.deliveryHandlers, h'.accepting.trans h.accepting,
    h'.queue.trans h.queue, h'.run.trans h.run, h'.stats.trans h.stats, h'.clock.trans h.clock,
    h'.pending.trans h.pending, h'.traffic.trans h.traffic⟩

theorem openWindow (h : Alike a b) (queue : List Event) :
    Alike (a.openWindow queue).2 (b.openWindow queue).2 ∧
      (b.openWindow queue).1 = (a.openWindow queue).1 := by
  refine ⟨{ h with }, ?_⟩
  unfold Aggregator.openWindow
  rw [h.clock]

theorem dispatch (h : Alike a b) (w : Window) : Alike (a.dispatch w) (b.dispatch w) := by
  have hclock : b.ledger.clock = a.ledger.clock := h.clock
  have helapsed : b.ledger.elapsedSince w.opened = a.ledger.elapsedSince w.opened := by
    unfold Ledger.elapsedSince
    rw [hclock]
  have hsent := recordDispatch_moves a w.batch (a.ledger.elapsedSince w.opened) a.ledger
  have hsent' := recordDispatch_moves b w.batch (b.ledger.elapsedSince w.opened) b.ledger
  unfold Aggregator.dispatch
  split
  · exact h
  · refine { h with stats := ?_, clock := ?_, pending := ?_, traffic := ?_ }
    · dsimp only
      rw [h.stats, helapsed, h.clock]
    · exact hsent'.clock.trans (hclock.trans hsent.clock.symm)
    · unfold Aggregator.pending
      rw [List.filter_append, List.filter_append, h.stats, h.run]
      exact congrArg (· ++ _) h.pending
    · dsimp only
      rw [hsent'.traffic, hsent.traffic, h.traffic, hclock]

/-- Gathering from the same queue into the same window keeps aggregators abreast. -/
theorem gather (queue : List Event) : ∀ {a b : Aggregator} (_ : Alike a b) (w : Window),
    Abreast (a.gather w queue) (b.gather w queue) := by
  induction queue with
  | nil => exact fun h w => { h with queue := rfl, phase := rfl, unstopped := rfl }
  | cons e rest ih =>
    intro a b h w
    have hlimit : b.batchLimit = a.batchLimit := by
      unfold Aggregator.batchLimit
      rw [h.settings]
    unfold Aggregator.gather
    dsimp only
    rw [hlimit]
    split
    · obtain ⟨hopened, hwindow⟩ := (h.dispatch { w with batch := w.batch ++ [e] }).openWindow rest
      rw [hwindow]
      exact ih hopened _
    · exact ih h _

theorem gatherAnew (h : Alike a b) : Abreast a.gatherAnew b.gatherAnew := by
  obtain ⟨hopened, hwindow⟩ := h.openWindow a.queue
  unfold Aggregator.gatherAnew
  rw [h.queue]
  dsimp only
  rw [hwindow, hopened.queue]
  exact hopened.gather _ _

theorem add (h : Alike a b) (e : Event) :
    (b.add e).1 = (a.add e).1 ∧ Alike (a.add e).2 (b.add e).2 := by
  have hroom : (b.accepting && decide (b.queue.length < b.capacity)) =
      (a.accepting && decide (a.queue.length < a.capacity)) := by
    unfold Aggregator.capacity
    rw [h.accepting, h.queue, h.settings]
  unfold Aggregator.add
  rw [hroom]
  cases a.accepting && decide (a.queue.length < a.capacity) with
  | true => exact ⟨rfl, { h with queue := congrArg (· ++ [e]) h.queue }⟩
  | false => exact ⟨rfl, { h with }⟩

theorem pass (h : Alike a b) (ms : Nat) : Alike (a.pass ms) (b.pass ms) :=
  { h with clock := congrArg (· + (ms : Int)) h.clock }

theorem attended (h : Alike a b) : b.attended = a.attended := by
  unfold Aggregator.attended
  rw [h.pending]
  exact List.map_congr_left fun j _ => Job.fst_lead_congr h.batchHandler j h.clock

theorem firstMoves (h : Alike a b) :
    b.pending.flatMap (Job.firstMoves b.handlers) = a.pending.flatMap (Job.firstMoves a.handlers) := by
  rw [h.pending]
  unfold Job.firstMoves
  rw [h.batchHandler]

theorem deliver (h : Alike a b) : Alike a.deliver b.deliver := by
  have hclock : b.ledger.clock = a.ledger.clock := h.clock
  refine { h with clock := ?_, pending := ?_, traffic := ?_ }
  · exact (deliver_moves b).clock.trans (hclock.trans (deliver_moves a).clock.symm)
  · rw [pending_deliver, pending_deliver, h.attended]
  · rw [(deliver_moves a).traffic, (deliver_moves b).traffic, h.traffic, h.firstMoves, h.attended,
      h.deliveryHandlers, hclock]

/-- The end of a wait for deliveries is told by the phase alone. -/
theorem of_endDrained (a : Aggregator) : Alike a a.endDrained := by
  obtain heq | ⟨-, -, heq⟩ := endDrained_cases a <;> rw [heq]
  · exact refl a
  · exact { refl a with }

theorem of_endExpired (a : Aggregator) : Alike a a.endExpired := by
  obtain heq | ⟨_, -, -, heq⟩ := endExpired_cases a <;> rw [heq]
  · exact refl a
  · exact { refl a with traffic := (Moves.log a.ledger _).traffic.trans (List.append_nil _) }

theorem endDrained (h : Alike a b) : Alike a.endDrained b.endDrained :=
  (of_endDrained a).symm.trans (h.trans (of_endDrained b))

theorem endExpired (h : Alike a b) : Alike a.endExpired b.endExpired :=
  (of_endExpired a).symm.trans (h.trans (of_endExpired b))

/-- A round gives batches to handlers in the same way. -/
theorem conclude (h : Alike a b) : Alike a.conclude b.conclude := h.deliver.endDrained

theorem flushWindow (h : Alike a b) (w : Window) : Alike (a.flushWindow w) (b.flushWindow w) := by
  have hsent := h.dispatch { w with batch := w.batch ++ a.queue }
  unfold Aggregator.flushWindow
  rw [h.queue]
  exact { hsent with accepting := rfl, queue := rfl }

end Alike

/-! ## Up to the first stop -/

theorem endDrained_of_unstopped (h : a.drainDeadline? = none) : a.endDrained = a := by
  refine (endDrained_cases a).resolve_right fun ⟨⟨d, hphase⟩, _⟩ => ?_
  unfold drainDeadline? at h
  rw [hphase] at h
  cases h

theorem endExpired_of_unstopped (h : a.drainDeadline? = none) : a.endExpired = a := by
  refine (endExpired_cases a).resolve_right fun ⟨d, hphase, _⟩ => ?_
  unfold drainDeadline? at h
  rw [hphase] at h
  cases h

namespace Abreast

theorem collect (h : Abreast a b) : Abreast a.collect b.collect := by
  have hover : ∀ w, b.isOver w = a.isOver w := fun w => by
    unfold Aggregator.isOver
    rw [h.settings, h.clock]
  unfold Aggregator.collect
  rw [h.phase]
  split
  · exact h.gatherAnew
  · next w _ =>
    rw [hover]
    split
    · exact (h.dispatch w).gatherAnew
    · rw [h.queue]
      exact h.gather a.queue w
  · exact h

theorem of_alike (h : Alike a b) (hphase : b.phase = a.phase) (hunstopped : a.drainDeadline? = none) :
    Abreast a b := { h with phase := hphase, unstopped := hunstopped }

theorem unstopped_right (h : Abreast a b) : b.drainDeadline? = none := by
  rw [← h.unstopped]
  unfold drainDeadline?
  rw [h.phase]

theorem advance (h : Abreast a b) : Abreast a.advance b.advance := by
  have hcollected := h.collect
  -- no wait for deliveries can end before a stop
  unfold Aggregator.advance
  rw [endDrained_of_unstopped hcollected.unstopped, endDrained_of_unstopped hcollected.unstopped_right,
    endExpired_of_unstopped hcollected.unstopped, endExpired_of_unstopped hcollected.unstopped_right]
  exact hcollected

theorem conclude (h : Abreast a b) : Abreast a.conclude b.conclude := by
  have hdelivered : Abreast a.deliver b.deliver :=
    { h.toAlike.deliver with phase := h.phase, unstopped := h.unstopped }
  unfold Aggregator.conclude
  rw [endDrained_of_unstopped hdelivered.unstopped, endDrained_of_unstopped hdelivered.unstopped_right]
  exact hdelivered

theorem start (h : Abreast a b) : Abreast a.start b.start := by
  unfold Aggregator.start
  rw [h.phase]
  split
  · exact { h with accepting := rfl, phase := rfl, unstopped := rfl, run := congrArg (· + 1) h.run }
  · exact h

theorem add (h : Abreast a b) (e : Event) : Abreast (a.add e).2 (b.add e).2 := by
  have hphase : ∀ c : Aggregator, (c.add e).2.phase = c.phase := fun c => by
    unfold Aggregator.add
    split <;> rfl
  refine .of_alike (h.toAlike.add e).2 ((hphase b).trans (h.phase.trans (hphase a).symm)) ?_
  unfold drainDeadline?
  rw [hphase]
  exact h.unstopped

theorem pass (h : Abreast a b) (ms : Nat) : Abreast (a.pass ms) (b.pass ms) :=
  { h.toAlike.pass ms with phase := h.phase, unstopped := h.unstopped }

/-- A stop begins: both let the same batch leave, and collect no more. -/
theorem flush (h : Abreast a b) : Resting a.flush b.flush := by
  have halike : Alike a.flush b.flush := by
    unfold Aggregator.flush
    rw [h.phase, h.queue]
    split
    · obtain ⟨hopened, hwindow⟩ := h.openWindow a.queue
      dsimp only
      rw [hwindow]
      exact hopened.flushWindow _
    · next w _ => exact h.flushWindow w
    · exact h.toAlike
  have hrest : ∀ c : Aggregator, c.flush.isRunning = false := fun c => by
    cases hrun : c.isRunning with
    | true =>
      unfold Aggregator.isRunning
      rw [(flush_of_running hrun).2.2]
    | false => rw [flush_of_not_running hrun, hrun]
  exact { halike with first := hrest a, second := hrest b }

end Abreast

/-! ## After a stop has begun -/

namespace Resting

theorem add (h : Resting a b) (e : Event) : Resting (a.add e).2 (b.add e).2 := by
  have hrun : ∀ c : Aggregator, (c.add e).2.isRunning = c.isRunning := fun c => by
    unfold Aggregator.add
    split <;> rfl
  exact { (h.toAlike.add e).2 with
    first := (hrun a).trans h.first
    second := (hrun b).trans h.second }

theorem pass (h : Resting a b) (ms : Nat) : Resting (a.pass ms) (b.pass ms) :=
  { h.toAlike.pass ms with first := h.first, second := h.second }

theorem advance (h : Resting a b) : Resting a.advance b.advance := by
  have hrun : ∀ c : Aggregator, c.endDrained.endExpired.isRunning = c.isRunning := fun c =>
    (rest_endExpired _).1.trans (rest_endDrained c).1
  unfold Aggregator.advance
  rw [collect_of_not_running h.first, collect_of_not_running h.second]
  exact { h.toAlike.endDrained.endExpired with
    first := (hrun a).trans h.first
    second := (hrun b).trans h.second }

theorem conclude (h : Resting a b) : Resting a.conclude b.conclude := by
  have hrun : ∀ c : Aggregator, c.conclude.isRunning = c.isRunning := fun c =>
    (rest_endDrained c.deliver).1.trans (isRunning_of_frame (frame_deliver c))
  exact { h.toAlike.conclude with
    first := (hrun a).trans h.first
    second := (hrun b).trans h.second }

end Resting

/-! ## Runs -/

/-- Whether an action neither starts nor stops the collector. -/
def Action.isPassive : Action → Bool
  | .start => false
  | .stop => false
  | .halt => false
  | _ => true

/-- Whether a run goes up to the first stop: that may begin, and is not waited for. -/
def upToStop : List Action → Bool
  | [] => true
  | .stop :: _ => false
  | .halt :: rest => rest.all Action.isPassive
  | _ :: rest => upToStop rest

/-- Alike aggregators answer alike. -/
theorem Alike.offers (h : Alike a b) (x : Action) : (b.act x).1 = (a.act x).1 := by
  cases x with
  | add e =>
    show [Offer.mk e b.clock (b.add e).1] = [Offer.mk e a.clock (a.add e).1]
    rw [h.clock, (h.add e).1]
  | _ => rfl

theorem Resting.exec (xs : List Action) : ∀ {a b : Aggregator}, Resting a b →
    xs.all Action.isPassive = true →
    (b.exec xs).1 = (a.exec xs).1 ∧ Alike (a.exec xs).2 (b.exec xs).2 := by
  induction xs with
  | nil => exact fun h _ => ⟨rfl, h.toAlike⟩
  | cons x rest ih =>
    intro a b h hpassive
    rw [List.all_cons, Bool.and_eq_true] at hpassive
    obtain ⟨hx, hrest⟩ := hpassive
    have hstep : Resting (a.act x).2 (b.act x).2 := by
      cases x with
      | add e => exact h.add e
      | pass ms => exact h.pass ms
      | advance => exact h.advance
      | conclude => exact h.conclude
      | _ => cases hx
    obtain ⟨hmore, halike⟩ := ih hstep hrest
    rw [exec_cons, exec_cons, h.offers, hmore]
    exact ⟨rfl, halike⟩

theorem Abreast.exec (xs : List Action) : ∀ {a b : Aggregator}, Abreast a b →
    upToStop xs = true →
    (b.exec xs).1 = (a.exec xs).1 ∧ Alike (a.exec xs).2 (b.exec xs).2 := by
  induction xs with
  | nil => exact fun h _ => ⟨rfl, h.toAlike⟩
  | cons x rest ih =>
    intro a b h hrest
    rw [exec_cons, exec_cons, h.offers]
    suffices hgoes : ((b.act x).2.exec rest).1 = ((a.act x).2.exec rest).1 ∧
        Alike ((a.act x).2.exec rest).2 ((b.act x).2.exec rest).2 by
      rw [hgoes.1]
      exact ⟨rfl, hgoes.2⟩
    cases x with
    | add e => exact ih (h.add e) hrest
    | start => exact ih h.start hrest
    | stop => cases hrest
    | halt =>
      -- from here on the two may wait for their deliveries differently
      exact h.flush.exec rest hrest
    | pass ms => exact ih (h.pass ms) hrest
    | advance => exact ih h.advance hrest
    | conclude => exact ih h.conclude hrest

theorem isWholeStop_of_upToStop (xs : List Action) (h : upToStop xs = true) :
    ∀ x ∈ xs, x.isWholeStop = false := by
  induction xs with
  | nil => exact fun _ hx => absurd hx List.not_mem_nil
  | cons x rest ih =>
    refine List.forall_mem_cons.2 ⟨?_, ?_⟩
    · cases x with
      | stop => cases h
      | _ => rfl
    · cases x with
      | stop => cases h
      | halt =>
        intro y hy
        have hpassive := List.all_eq_true.1 h y hy
        cases y with
        | stop => cases hpassive
        | _ => rfl
      | _ => exact ih h

/-- Two runs with the same answers, in which the same batches leave at the same times, and in which the
handler of every place is given the same batches at the same times. -/
structure SameWays (r r' : List Offer × Aggregator) : Prop where
  answers : r'.1 = r.1
  departures : r'.2.ledger.departures = r.2.ledger.departures
  invocations : ∀ place, r'.2.ledger.invocations place = r.2.ledger.invocations place

theorem Alike.sameWays {r r' : List Offer × Aggregator} (hanswers : r'.1 = r.1)
    (h : Alike r.2 r'.2) : SameWays r r' := by
  refine ⟨hanswers, ?_, fun place => ?_⟩
  · rw [Ledger.departures_eq, Ledger.departures_eq, h.traffic]
  · rw [Ledger.invocations_eq, Ledger.invocations_eq, h.traffic]

/-- **A delivery handler is isolated.** Up to the first stop, replacing a delivery handler by any other
one changes no answer, no batch, and nothing that a handler is given; and every handler is given every
batch once, the delivery handlers when the batch handler is through with it. -/
theorem exec_isolates (settings : Aggregator.Config) (first : Option Handler)
    (before after : List Handler) (handler : Handler) (metrics : Metrics.Config) (clock : Int)
    (actions : List Action) (h : upToStop actions = true) :
    (∀ other : Handler,
      SameWays ((fresh settings ⟨first, before ++ handler :: after⟩ metrics clock).exec actions)
        ((fresh settings ⟨first, before ++ other :: after⟩ metrics clock).exec actions)) ∧
      DeliversOnce (fresh settings ⟨first, before ++ handler :: after⟩ metrics clock) actions := by
  have hstops := isWholeStop_of_upToStop actions h
  refine ⟨fun other => ?_, ?_⟩
  · have hstart : Abreast (fresh settings ⟨first, before ++ handler :: after⟩ metrics clock)
        (fresh settings ⟨first, before ++ other :: after⟩ metrics clock) := by
      refine ⟨⟨rfl, rfl, ?_, rfl, rfl, rfl, rfl, rfl, rfl, rfl⟩, rfl, rfl⟩
      simp [fresh, ofConfig]
    obtain ⟨hanswers, halike⟩ := hstart.exec actions h
    exact halike.sameWays hanswers
  · exact deliversOnce_fresh settings _ metrics clock hstops

/-- A delivery handler that takes half a second and panics, except for the first batch. -/
def unreliable : Handler :=
  ⟨"unreliable", .drop, fun number => if number = 1 then ⟨0, .failed⟩ else ⟨500, .panicked⟩⟩

/-- A batch handler that takes thirty milliseconds and fails. -/
def tardyFirst : Handler := ⟨"first", .keep, fun _ => ⟨30, .failed⟩⟩

/-- Two windows with an event each, and a stop that begins while another event waits. -/
def sampleActions : List Action :=
  [.start, .advance, offer "a", .advance, .pass 100, .advance, .conclude, offer "b", .advance, .pass 40,
    .conclude, .pass 60, .advance, .conclude, offer "c", .halt, .conclude, .pass 30, .advance, .conclude]

/-- An aggregator with a delivery handler ahead of one that is through at once. -/
def sampleWith (handler : Handler) : Aggregator :=
  fresh Config.standard ⟨some tardyFirst, [handler, .counter]⟩ .standard 0

theorem sampleWith_isolates :
    upToStop sampleActions = true ∧
      (((sampleWith .log).courses sampleActions).map fun c =>
        (c.number, c.batch.map Event.gameId, c.begun, c.ended (sampleWith .log).handlers)) =
          [(1, ["a"], some 100, some 140), (2, ["b"], some 200, some 230),
            (3, ["c"], some 200, some 230)] ∧
      (((sampleWith unreliable).exec sampleActions).2.ledger.invocations (.delivery 1)).map
          (fun x => (x.1, x.2.map Event.gameId)) = [(140, ["a"]), (230, ["b"]), (230, ["c"])] := by
  have hsame : SameWays ((sampleWith .log).exec sampleActions)
      ((sampleWith unreliable).exec sampleActions) :=
    (exec_isolates Config.standard (some tardyFirst) [] [.counter] .log .standard 0 sampleActions
      (by decide)).1 unreliable
  refine ⟨by decide, by decide +kernel, ?_⟩
  rw [hsame.invocations]
  decide +kernel

end Ingress.Aggregator
