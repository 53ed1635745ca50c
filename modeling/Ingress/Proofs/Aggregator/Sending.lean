import Ingress.Proofs.Aggregator.Conservation
import Mathlib

/-!
# Batches that leave

Whatever the collector does, it lets some batches leave their window: each of them becomes a job of the
next number, and is written down as dispatched.

* `Closing` : a window that closed, and the batch that left it;
* `gatherClosings`, `collectClosings`, `flushClosings` : the windows that a step of the collector closes;
* `Sends a b batches` : from `a` to `b` the collector has let `batches` leave;
* `sends_dispatch`, `sends_gather`, `sends_flush`, ... : a step lets leave what its windows held;
* `sends_act` : every action but a round of deliveries and a whole stop;
* `Numbered` : numbers count the dispatched batches;
* `handlers_act` : no action changes the handlers.
-/

namespace Ingress.Aggregator

open Ledger (Moves)

/-! ## Windows that close -/

/-- A window that closed with events in it: when it was opened, when it closed, whether a stop closed it,
and its events, which leave as one batch. -/
structure Closing where
  opened : Int
  closed : Int
  halted : Bool
  batch : List Event

/-- A window closes at the present time. Without events it leaves no batch. -/
def closing (a : Aggregator) (w : Window) (halted : Bool) : List Closing :=
  if w.batch.isEmpty then [] else [⟨w.opened, a.clock, halted, w.batch⟩]

/-- The windows that fill up while events are gathered. -/
def gatherClosings (a : Aggregator) (w : Window) : List Event → List Closing
  | [] => []
  | e :: rest =>
    let w := { w with batch := w.batch ++ [e] }
    if a.batchLimit ≤ w.batch.length then
      let (next, b) := (a.dispatch w).openWindow rest
      a.closing w false ++ b.gatherClosings next rest
    else a.gatherClosings w rest

/-- The windows that fill up among what waits, from a new one on. -/
def gatherAnewClosings (a : Aggregator) : List Closing :=
  let (w, b) := a.openWindow a.queue
  b.gatherClosings w a.queue

/-- The windows that the collector closes at the present time. -/
def collectClosings (a : Aggregator) : List Closing :=
  match a.phase with
  | .starting => a.gatherAnewClosings
  | .gathering w =>
    if a.isOver w then a.closing w false ++ (a.dispatch w).gatherAnewClosings
    else a.gatherClosings w a.queue
  | _ => []

/-- A stop closes the open window with everything that waits in it. -/
def flushClosings (a : Aggregator) : List Closing :=
  match a.phase with
  | .starting => a.closing ⟨a.clock, a.queue.length, a.queue⟩ true
  | .gathering w => a.closing { w with batch := w.batch ++ a.queue } true
  | _ => []

/-! ## What leaves -/

/-- From `a` to `b`, at the time of `a`, the collector has let batches leave. -/
structure Sends (a b : Aggregator) (batches : List (List Event)) : Prop where
  pending : b.pending = a.pending ++
    (batches.zipIdx (a.stats.issued + 1)).map fun x => ⟨x.2, a.run, x.1, .dispatched⟩
  issued : b.stats.issued = a.stats.issued + batches.length
  traffic : b.ledger.traffic =
    a.ledger.traffic ++ batches.map fun batch => ⟨a.clock, .dispatched batch⟩

variable {a b c : Aggregator} {batches more : List (List Event)}

theorem Sends.nothing (hpending : b.pending = a.pending) (hstats : b.stats = a.stats)
    (htraffic : b.ledger.traffic = a.ledger.traffic) : Sends a b [] :=
  ⟨hpending.trans (List.append_nil _).symm, by rw [hstats]; rfl,
    htraffic.trans (List.append_nil _).symm⟩

theorem Sends.refl (a : Aggregator) : Sends a a [] := .nothing rfl rfl rfl

theorem Sends.trans (h : Sends a b batches) (hstays : Stays a b) (h' : Sends b c more) :
    Sends a c (batches ++ more) := by
  refine ⟨?_, ?_, ?_⟩
  · rw [h'.pending, h.pending, h.issued, hstays.run, List.zipIdx_append, List.map_append,
      List.append_assoc, Nat.add_right_comm]
  · rw [h'.issued, h.issued, List.length_append, Nat.add_assoc]
  · rw [h'.traffic, h.traffic, hstays.clock, List.map_append, List.append_assoc]

theorem sends_openWindow (a : Aggregator) (queue : List Event) :
    Sends a (a.openWindow queue).2 [] := .nothing rfl rfl rfl

theorem sends_dispatch (a : Aggregator) (w : Window) (halted : Bool) :
    Sends a (a.dispatch w) ((a.closing w halted).map Closing.batch) := by
  unfold dispatch closing
  split
  · exact .refl a
  · refine ⟨List.filter_append _ _, rfl, ?_⟩
    exact (recordDispatch_moves a w.batch _ a.ledger).traffic

theorem sends_gather (queue : List Event) : ∀ (a : Aggregator) (w : Window),
    Sends a (a.gather w queue) ((a.gatherClosings w queue).map Closing.batch) := by
  induction queue with
  | nil => exact fun a w => .nothing rfl rfl rfl
  | cons e rest ih =>
    intro a w
    unfold gather gatherClosings
    dsimp only
    split
    · have hsent := sends_dispatch a { w with batch := w.batch ++ [e] } false
      have hstays := (frame_dispatch a { w with batch := w.batch ++ [e] }).toStays
      have hopened := hsent.trans hstays (sends_openWindow _ rest)
      rw [List.append_nil] at hopened
      rw [List.map_append]
      exact hopened.trans (hstays.trans (frame_openWindow _ rest).toStays) (ih _ _)
    · exact ih a _

theorem sends_gatherAnew (a : Aggregator) :
    Sends a a.gatherAnew (a.gatherAnewClosings.map Closing.batch) :=
  (sends_openWindow a a.queue).trans (frame_openWindow a a.queue).toStays (sends_gather a.queue _ _)

theorem sends_collect (a : Aggregator) :
    Sends a a.collect (a.collectClosings.map Closing.batch) := by
  unfold collect collectClosings
  cases a.phase with
  | starting => exact sends_gatherAnew a
  | gathering w =>
    dsimp only
    split
    · rw [List.map_append]
      exact (sends_dispatch a w false).trans (frame_dispatch a w).toStays (sends_gatherAnew _)
    · exact sends_gather a.queue a w
  | _ => exact .refl a

theorem sends_endDrained (a : Aggregator) : Sends a a.endDrained [] := by
  obtain heq | ⟨-, -, heq⟩ := endDrained_cases a <;> rw [heq]
  · exact .refl a
  · exact .nothing rfl rfl rfl

theorem sends_endExpired (a : Aggregator) : Sends a a.endExpired [] := by
  obtain heq | ⟨_, -, -, heq⟩ := endExpired_cases a <;> rw [heq]
  · exact .refl a
  · exact .nothing rfl rfl ((Moves.log a.ledger _).traffic.trans (List.append_nil _))

theorem sends_advance (a : Aggregator) :
    Sends a a.advance (a.collectClosings.map Closing.batch) := by
  have hdrained := (sends_collect a).trans (stays_collect a) (sends_endDrained a.collect)
  have hexpired := hdrained.trans ((stays_collect a).trans (stays_endDrained _)) (sends_endExpired _)
  rwa [List.append_nil, List.append_nil] at hexpired

theorem sends_flushWindow (a : Aggregator) (w : Window) : Sends a (a.flushWindow w)
    ((a.closing { w with batch := w.batch ++ a.queue } true).map Closing.batch) := by
  have hsent := sends_dispatch a { w with batch := w.batch ++ a.queue } true
  have hclosed : Sends (a.dispatch { w with batch := w.batch ++ a.queue }) (a.flushWindow w) [] :=
    .nothing rfl rfl rfl
  have hrest := hsent.trans (frame_dispatch a _).toStays hclosed
  rwa [List.append_nil] at hrest

theorem sends_flush (a : Aggregator) : Sends a a.flush (a.flushClosings.map Closing.batch) := by
  unfold flush flushClosings
  cases a.phase with
  | starting =>
    exact (sends_openWindow a a.queue).trans (frame_openWindow a a.queue).toStays
      (sends_flushWindow (a.openWindow a.queue).2 (a.openWindow a.queue).1)
  | gathering w => exact sends_flushWindow a w
  | _ => exact .refl a

theorem sends_add (a : Aggregator) (e : Event) : Sends a (a.add e).2 [] := by
  unfold add
  split
  · exact .nothing rfl rfl rfl
  · exact .nothing rfl rfl ((Moves.increment a.ledger _ 1 []).traffic.trans (List.append_nil _))

theorem sends_start (a : Aggregator) : Sends a a.start [] := by
  unfold start
  split
  · exact .nothing rfl rfl rfl
  · exact .refl a

/-- Whether an action is a round of deliveries. -/
def Action.isRound : Action → Bool
  | .conclude => true
  | _ => false

/-- Whether an action is a whole stop, which has rounds of its own. -/
def Action.isWholeStop : Action → Bool
  | .stop => true
  | _ => false

theorem sends_act (a : Aggregator) {x : Action} (hstop : x.isWholeStop = false)
    (hround : x.isRound = false) : ∃ batches, Sends a (a.act x).2 batches := by
  cases x with
  | add e => exact ⟨[], sends_add a e⟩
  | start => exact ⟨[], sends_start a⟩
  | stop => cases hstop
  | halt => exact ⟨_, sends_flush a⟩
  | pass ms => exact ⟨[], .nothing rfl rfl rfl⟩
  | advance => exact ⟨_, sends_advance a⟩
  | conclude => cases hround

theorem handlers_flush (a : Aggregator) : a.flush.handlers = a.handlers := by
  unfold flush
  split
  · exact (frame_dispatch _ _).handlers.trans (frame_openWindow a a.queue).handlers
  · exact (frame_dispatch a _).handlers
  · rfl

/-- Handlers are registered before a run begins. -/
theorem handlers_act (a : Aggregator) (x : Action) : (a.act x).2.handlers = a.handlers := by
  have hkept : KeptByTime fun b => b.handlers = a.handlers :=
    { pass := fun _ _ h => h
      advance := fun b h => (stays_advance b).handlers.trans h
      conclude := fun b h => (stays_conclude b).handlers.trans h
      halt := fun b h => (handlers_flush b).trans h }
  refine hkept.act (fun b e h => ?_) (fun b h => ?_) a x rfl
  · unfold add
    split <;> exact h
  · unfold start
    split <;> exact h

theorem Sends.dispatched (h : Sends a b batches) :
    b.ledger.dispatched = a.ledger.dispatched ++ batches := by
  rw [Ledger.dispatched_append h.traffic]
  congr 1
  unfold Ledger.dispatchedIn
  rw [List.filterMap_map]
  exact List.filterMap_some

/-- Dispatched batches are numbered from 1. -/
def Numbered (a : Aggregator) : Prop := a.stats.issued = a.ledger.dispatched.length

theorem Sends.numbered (h : Sends a b batches) (ha : Numbered a) : Numbered b := by
  unfold Numbered at ha ⊢
  rw [h.issued, h.dispatched, List.length_append, ha]

end Ingress.Aggregator
