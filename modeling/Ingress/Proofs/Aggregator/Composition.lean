import Ingress.Proofs.Aggregator.Latency
import Mathlib

/-!
# What batches are made of

Three things close a window: it is full, its time is up, or a stop. It is looked at for its size whenever
an event enters it, so it always has room for one more, and only a stop puts more into it than it should
hold. So a batch that left before its time is full, unless a stop let it leave.

* `Closing.Composed` : what a batch is made of, by what closed its window;
* `HasRoom` : the open window has room for one more event;
* `closingsNow_gather`, `closingsNow_collect`, `closingsNow_flush` : the windows that a step closes;
* `closings`, `execClosings` : the windows that an action closes, and a run;
* `departures_act` : they are all that leaves;
* `Flushed` : what a stop lets leave, and what it leaves behind;
* `exec_composes` : every batch of every run.
-/

namespace Ingress.Aggregator

variable {a b : Aggregator} {c : Closing} {w : Window}

/-! ## The make-up of a batch -/

namespace Closing

/-- The batch of a window that closed: `full`, up to the limit if the window closed before its time, and
`size`, no more at any time, if no stop closed it. -/
structure Composed (settings : Config) (c : Closing) : Prop where
  nonempty : c.batch ≠ []
  size : c.halted = false → c.batch.length ≤ Max.max settings.maxBatchSize 1
  full : c.halted = false → c.closed < c.opened + settings.batchWindow →
    c.batch.length = Max.max settings.maxBatchSize 1

/-- A batch with the time at which it left. -/
def departure (c : Closing) : Int × List Event := (c.closed, c.batch)

end Closing

/-- Windows that close at the present time, with batches that are made up as they should be. -/
def ClosingsNow (a : Aggregator) (cs : List Closing) : Prop :=
  ∀ c ∈ cs, c.closed = a.clock ∧ c.Composed a.settings

theorem closingsNow_nil (a : Aggregator) : ClosingsNow a [] := List.forall_mem_nil _

theorem ClosingsNow.append {cs ds : List Closing} (hc : ClosingsNow a cs) (hd : ClosingsNow a ds) :
    ClosingsNow a (cs ++ ds) := List.forall_mem_append.2 ⟨hc, hd⟩

theorem ClosingsNow.of_stays {cs : List Closing} (h : ClosingsNow b cs) (hstays : Stays a b) :
    ClosingsNow a cs := by
  intro c hc
  rw [← hstays.clock, ← hstays.settings]
  exact h c hc

/-- A window closes as it should: a stop closes it, or it is full, or its time is up. -/
theorem closingsNow_closing {halted : Bool}
    (hsize : halted = false → w.batch.length ≤ a.batchLimit)
    (hfull : halted = false → w.batch.length = a.batchLimit ∨ a.isOver w = true) :
    ClosingsNow a (a.closing w halted) := by
  unfold closing
  split
  · exact closingsNow_nil a
  · next hsome =>
    refine List.forall_mem_singleton.2 ⟨rfl, fun hnone => hsome (List.isEmpty_iff.2 hnone), hsize, ?_⟩
    intro hrunning hearly
    rcases hfull hrunning with hlimit | hover
    · exact hlimit
    · have hlate : w.opened + a.settings.batchWindow ≤ a.clock := of_decide_eq_true hover
      have hbefore : a.clock < w.opened + a.settings.batchWindow := hearly
      omega

/-! ## Room for one more -/

theorem batchLimit_pos (a : Aggregator) : 0 < a.batchLimit := Nat.lt_of_lt_of_le one_pos (le_max_right _ _)

theorem Stays.batchLimit (h : Stays a b) : b.batchLimit = a.batchLimit := by
  unfold Aggregator.batchLimit
  rw [h.settings]

/-- A new window has room. -/
theorem length_openWindow (a : Aggregator) (queue : List Event) :
    (a.openWindow queue).1.batch.length < (a.openWindow queue).2.batchLimit := batchLimit_pos _

/-- The open window has room for one more event. -/
def HasRoom (a : Aggregator) : Prop := ∀ w, a.phase = .gathering w → w.batch.length < a.batchLimit

theorem hasRoom_of_not_running (h : a.isRunning = false) : HasRoom a :=
  fun w hphase => absurd hphase (phase_ne_gathering h w)

theorem hasRoom_gather (queue : List Event) : ∀ (a : Aggregator) (w : Window),
    w.batch.length < a.batchLimit → HasRoom (a.gather w queue) := by
  induction queue with
  | nil =>
    intro a w hroom v hv
    cases hv
    exact hroom
  | cons e rest ih =>
    intro a w hroom
    unfold gather
    dsimp only
    split
    · exact ih _ _ (length_openWindow _ rest)
    · next hleft => exact ih a _ (not_le.1 hleft)

theorem hasRoom_gatherAnew (a : Aggregator) : HasRoom a.gatherAnew :=
  hasRoom_gather a.queue _ _ (length_openWindow a a.queue)

theorem hasRoom_collect (h : HasRoom a) : HasRoom a.collect := by
  unfold collect
  split
  · exact hasRoom_gatherAnew a
  · next w hphase =>
    split
    · exact hasRoom_gatherAnew _
    · exact hasRoom_gather a.queue a w (h w hphase)
  · exact h

/-- The end of a wait for deliveries is not about windows. -/
theorem hasRoom_endDrained (h : HasRoom a) : HasRoom a.endDrained := by
  obtain heq | ⟨-, -, heq⟩ := endDrained_cases a <;> rw [heq]
  · exact h
  · exact hasRoom_of_not_running rfl

theorem hasRoom_endExpired (h : HasRoom a) : HasRoom a.endExpired := by
  obtain heq | ⟨_, -, -, heq⟩ := endExpired_cases a <;> rw [heq]
  · exact h
  · exact hasRoom_of_not_running rfl

theorem HasRoom.of_frame (h : HasRoom a) (hframe : Frame a b) : HasRoom b := by
  intro w hphase
  rw [hframe.toStays.batchLimit]
  exact h w (hframe.phase.symm.trans hphase)

theorem hasRoom_keptByTime : KeptByTime HasRoom where
  pass := fun _ _ h => h
  advance := fun _ h => hasRoom_endExpired (hasRoom_endDrained (hasRoom_collect h))
  conclude := fun a h => hasRoom_endDrained (h.of_frame (frame_deliver a))
  halt := fun a _ => hasRoom_of_not_running (isRunning_flush a)

theorem hasRoom_act (a : Aggregator) (x : Action) (h : HasRoom a) : HasRoom (a.act x).2 := by
  refine hasRoom_keptByTime.act (fun a e h => ?_) (fun a h => ?_) a x h
  · unfold add
    split <;> exact h
  · unfold start
    split
    · exact fun w hphase => by cases hphase
    · exact h

/-! ## The windows that a step closes -/

/-- Windows that fill up are full, and hold no more. -/
theorem closingsNow_gather (queue : List Event) : ∀ (a : Aggregator) (w : Window),
    w.batch.length < a.batchLimit → ClosingsNow a (a.gatherClosings w queue) := by
  induction queue with
  | nil => exact fun a _ _ => closingsNow_nil a
  | cons e rest ih =>
    intro a w hroom
    unfold gatherClosings
    dsimp only
    split
    · next hlimit =>
      have hlength : (w.batch ++ [e]).length = a.batchLimit := by
        rw [List.length_append, List.length_singleton] at hlimit ⊢
        omega
      have hsent := (frame_dispatch a { w with batch := w.batch ++ [e] }).toStays
      exact (closingsNow_closing (fun _ => hlength.le) fun _ => .inl hlength).append
        ((ih _ _ (length_openWindow _ rest)).of_stays (hsent.trans (frame_openWindow _ rest).toStays))
    · next hleft => exact ih a _ (not_le.1 hleft)

theorem closingsNow_gatherAnew (a : Aggregator) : ClosingsNow a a.gatherAnewClosings :=
  (closingsNow_gather a.queue _ _ (length_openWindow a a.queue)).of_stays
    (frame_openWindow a a.queue).toStays

theorem closingsNow_collect (h : HasRoom a) : ClosingsNow a a.collectClosings := by
  unfold collectClosings
  cases hphase : a.phase with
  | starting => exact closingsNow_gatherAnew a
  | gathering w =>
    have hroom := h w hphase
    dsimp only
    split
    · next hover =>
      exact (closingsNow_closing (fun _ => hroom.le) fun _ => .inr hover).append
        ((closingsNow_gatherAnew _).of_stays (frame_dispatch a w).toStays)
    · exact closingsNow_gather a.queue a w hroom
  | _ => exact closingsNow_nil a

/-- A stop asks nothing of the size of the window that it closes. -/
theorem closingsNow_flush (a : Aggregator) : ClosingsNow a a.flushClosings := by
  have hclosing : ∀ w, ClosingsNow a (a.closing w true) := fun w =>
    closingsNow_closing (fun h => by cases h) fun h => by cases h
  unfold flushClosings
  cases a.phase with
  | starting => exact hclosing _
  | gathering w => exact hclosing _
  | _ => exact closingsNow_nil a

/-! ## The windows that an action closes -/

/-- The windows that an action closes. A whole stop first does what is due. -/
def closings (a : Aggregator) : Action → List Closing
  | .halt => a.flushClosings
  | .advance => a.collectClosings
  | .stop => a.collectClosings ++ a.settle.flushClosings
  | _ => []

def execClosings (a : Aggregator) : List Action → List Closing
  | [] => []
  | x :: rest => a.closings x ++ (a.act x).2.execClosings rest

theorem closingsNow_act (h : HasRoom a) (x : Action) : ClosingsNow a (a.closings x) := by
  cases x with
  | halt => exact closingsNow_flush a
  | advance => exact closingsNow_collect h
  | stop => exact (closingsNow_collect h).append ((closingsNow_flush _).of_stays (stays_settle a))
  | _ => exact closingsNow_nil a

theorem collectClosings_of_not_running (h : a.isRunning = false) : a.collectClosings = [] := by
  unfold collectClosings
  split
  · next hphase => simp [isRunning, hphase] at h
  · next hphase => simp [isRunning, hphase] at h
  · rfl

theorem departures_conclude (a : Aggregator) :
    a.conclude.ledger.departures = a.ledger.departures := by
  unfold conclude
  rw [(pending_endDrained a.deliver).2]
  exact departures_deliver a

/-- Nothing leaves, and what waits goes on waiting, while the collector does not run. -/
theorem rest_keptByTime (queue : List Event) (ds : List (Int × List Event)) : KeptByTime fun a =>
    a.isRunning = false ∧ a.queue = queue ∧ a.ledger.departures = ds where
  pass := fun _ _ h => h
  advance := fun a ⟨hrun, hqueue, hdepartures⟩ => by
    refine ⟨(isRunning_advance a).trans hrun, ?_, ?_⟩
    · rw [queue_advance, hrun]
      exact hqueue
    · rw [(sends_advance a).departures, collectClosings_of_not_running hrun]
      exact (List.append_nil _).trans hdepartures
  conclude := fun a ⟨hrun, hqueue, hdepartures⟩ =>
    ⟨(isRunning_conclude a).trans hrun,
      ((rest_endDrained a.deliver).2.trans (frame_deliver a).queue).trans hqueue,
      (departures_conclude a).trans hdepartures⟩
  halt := fun a h => by
    rw [flush_of_not_running h.1]
    exact h

/-- While a stop waits for deliveries, all stays as its beginning left it. -/
theorem rest_stop (a : Aggregator) : a.stop.isRunning = false ∧
    a.stop.queue = a.settle.flush.queue ∧
      a.stop.ledger.departures = a.settle.flush.ledger.departures := by
  have hkept := rest_keptByTime a.settle.flush.queue a.settle.flush.ledger.departures
  exact hkept.awaitDrain _ _ (hkept.settle _ ⟨isRunning_flush _, rfl, rfl⟩)

/-- What leaves now, leaves with the windows that close now. -/
theorem Sends.departure {cs : List Closing} (h : Sends a b (cs.map Closing.batch))
    (hcs : ClosingsNow a cs) :
    b.ledger.departures = a.ledger.departures ++ cs.map Closing.departure := by
  rw [h.departures, List.map_map]
  congr 1
  refine List.map_congr_left fun c hc => ?_
  show (a.clock, c.batch) = (c.closed, c.batch)
  rw [(hcs c hc).1]

theorem departures_settle (h : HasRoom a) :
    a.settle.ledger.departures = a.ledger.departures ++ a.collectClosings.map Closing.departure :=
  (departures_conclude a.advance).trans ((sends_advance a).departure (closingsNow_collect h))

/-- Whatever leaves during an action, leaves a window that it closes. -/
theorem departures_act (h : HasRoom a) (x : Action) : (a.act x).2.ledger.departures =
    a.ledger.departures ++ (a.closings x).map Closing.departure := by
  cases x with
  | add e => exact (sends_add a e).departures
  | start => exact (sends_start a).departures
  | stop =>
    show a.stop.ledger.departures = _
    rw [(rest_stop a).2.2, (sends_flush a.settle).departure (closingsNow_flush _),
      departures_settle h, closings, List.map_append, List.append_assoc]
  | halt => exact (sends_flush a).departure (closingsNow_flush a)
  | pass ms => exact (List.append_nil _).symm
  | advance => exact (sends_advance a).departure (closingsNow_collect h)
  | conclude => exact (departures_conclude a).trans (List.append_nil _).symm

/-! ## Stops -/

/-- What a stop lets leave: the events of the open window, followed by those that wait, as one batch. -/
def remainder (a : Aggregator) : List (List Event) :=
  if (a.openBatch ++ a.queue).isEmpty then [] else [a.openBatch ++ a.queue]

/-- From `a` to `b` all that was taken has left, as one batch or as none. -/
structure Flushed (a b : Aggregator) : Prop where
  dispatched : b.ledger.dispatched = a.ledger.dispatched ++ a.remainder
  openBatch : b.openBatch = []
  queue : b.queue = []

theorem batches_flushClosings (h : a.isRunning = true) :
    a.flushClosings.map Closing.batch = a.remainder := by
  have hclosing : ∀ w, (a.closing w true).map Closing.batch =
      if w.batch.isEmpty then [] else [w.batch] := by
    intro w
    unfold closing
    split <;> rfl
  unfold flushClosings remainder openBatch
  rcases phase_of_running h with hphase | ⟨w, hphase⟩
  · rw [hphase]
    exact hclosing _
  · rw [hphase]
    exact hclosing _

theorem flushed_flush (h : a.isRunning = true) : Flushed a a.flush where
  dispatched := by rw [(sends_flush a).dispatched, batches_flushClosings h]
  openBatch := openBatch_of_not_running (isRunning_flush a)
  queue := (flush_of_running h).2.1

/-- What is due is done before the stop, and nothing leaves while it waits. -/
theorem flushed_stop (h : a.isRunning = true) : Flushed a.settle a.stop := by
  obtain ⟨hrun, hqueue, hdepartures⟩ := rest_stop a
  have hflushed := flushed_flush (isRunning_settle h)
  refine ⟨?_, openBatch_of_not_running hrun, hqueue.trans hflushed.queue⟩
  rw [← hflushed.dispatched, Ledger.dispatched_eq_map, hdepartures, Ledger.dispatched_eq_map]

/-! ## Every run -/

/-- The batches of a run that began without any: `departures`, each of them left a window when it closed;
`composed`, as it should be made up; `halt` and `stop`, the beginning of a stop and a whole one, whenever
the aggregator runs. -/
structure Composes (settings : Config) (cs : List Closing) (a : Aggregator) : Prop where
  departures : a.ledger.departures = cs.map Closing.departure
  composed : ∀ c ∈ cs, c.Composed settings
  halt : a.isRunning = true → Flushed a a.flush
  stop : a.isRunning = true → Flushed a.settle a.stop

theorem departures_exec (xs : List Action) : ∀ a : Aggregator, HasRoom a →
    (a.exec xs).2.ledger.departures =
      a.ledger.departures ++ (a.execClosings xs).map Closing.departure := by
  induction xs with
  | nil => exact fun a _ => (List.append_nil _).symm
  | cons x rest ih =>
    intro a h
    rw [exec_cons, execClosings, List.map_append, ← List.append_assoc, ← departures_act h x]
    exact ih _ (hasRoom_act a x h)

theorem composed_exec (xs : List Action) : ∀ a : Aggregator, HasRoom a →
    ∀ c ∈ a.execClosings xs, c.Composed a.settings := by
  induction xs with
  | nil => exact fun a _ => List.forall_mem_nil _
  | cons x rest ih =>
    intro a h
    refine List.forall_mem_append.2 ⟨fun c hc => (closingsNow_act h x c hc).2, ?_⟩
    rw [← settings_act a x]
    exact ih _ (hasRoom_act a x h)

/-- **Every batch is made up as it should be**, in any run: none is empty, none but that of a stop is too
large, and one that leaves before its time is full. -/
theorem exec_composes (settings : Aggregator.Config) (handlers : Handlers)
    (metrics : Metrics.Config) (clock : Int) (actions : List Action) :
    Composes settings ((fresh settings handlers metrics clock).execClosings actions)
      ((fresh settings handlers metrics clock).exec actions).2 := by
  have hroom : HasRoom (fresh settings handlers metrics clock) := hasRoom_of_not_running rfl
  exact ⟨departures_exec actions _ hroom, composed_exec actions _ hroom, flushed_flush, flushed_stop⟩

/-- A window that fills up, one whose time is up as an event comes, and one that a stop closes. -/
example : ((fresh { Config.standard with maxBatchSize := 2 } ⟨none, []⟩ .standard 0).execClosings
    [offer "a", .start, offer "b", .advance, offer "c", .advance, .pass 100, offer "d", .advance,
      offer "e", .halt]).map (fun c => (c.opened, c.closed, c.halted, c.batch.map Event.gameId)) =
    [(0, 0, false, ["a", "b"]), (0, 100, false, ["c"]), (100, 100, true, ["d", "e"])] := by
  decide +kernel

end Ingress.Aggregator
