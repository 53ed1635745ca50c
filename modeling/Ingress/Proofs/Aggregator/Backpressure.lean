import Ingress.Proofs.Aggregator.Composition
import Ingress.Proofs.Aggregator.Invariant
import Ingress.Proofs.Metrics.Counter
import Mathlib

/-!
# Backpressure

The queue never holds more than it has room for. An event is refused when there is no room for it, or when
intake is closed, which it is from a stop of a running aggregator on until the next start that has an effect.
A refusal is counted and leaves everything else as it was, so the counter tells how many there were.

* `Switch`, `switches` : the openings and closings of intake along a run; `switches_tell` : what they tell
  of every action, they tell of the run;
* `accepting_exec` : intake is as the last of them left it;
* `length_queue_exec` : the queue has room for what it holds;
* `dropped_exec` : every refusal is counted, and nothing else is;
* `Waits`, `phase_stop_of_waits` : a stop leaves the aggregator idle, whatever it was doing;
* `Refuses a b` : what a refusal changes;
* `exec_backpressure` : intake at every point of every run.
-/

namespace Ingress.Aggregator

open Metrics

variable {a b : Aggregator}

/-! ## Openings and closings -/

/-- Intake is opened by a start, and closed by a stop. -/
inductive Switch where
  | opened
  | closed
deriving DecidableEq, Repr

/-- What an action does to intake: a start opens it, unless the collector runs already or a stop still
waits for deliveries; a stop closes it when the collector runs. -/
def switching (a : Aggregator) : Action → List Switch
  | .start => if a.isRunning || a.drainDeadline?.isSome then [] else [.opened]
  | .stop => if a.isRunning then [.closed] else []
  | .halt => if a.isRunning then [.closed] else []
  | _ => []

/-- The openings and closings of intake along a run, in order. -/
def switches (a : Aggregator) : List Action → List Switch
  | [] => []
  | x :: rest => a.switching x ++ (a.act x).2.switches rest

/-- Whether intake is open after some openings and closings. -/
def openAfter (before : Bool) (ss : List Switch) : Bool := ss.foldl (fun _ s => s == .opened) before

/-- What openings and closings tell after every action, they tell after a run. -/
theorem switches_tell {α : Type} {f : Aggregator → α} (tell : α → List Switch → α)
    (hnil : ∀ s, tell s [] = s) (happend : ∀ s ss ts, tell s (ss ++ ts) = tell (tell s ss) ts)
    (hact : ∀ a x, f (a.act x).2 = tell (f a) (a.switching x)) (xs : List Action) :
    ∀ a : Aggregator, f (a.exec xs).2 = tell (f a) (a.switches xs) := by
  induction xs with
  | nil => exact fun a => (hnil (f a)).symm
  | cons x rest ih =>
    intro a
    rw [exec_cons, switches, happend, ← hact]
    exact ih _

theorem openAfter_append (before : Bool) (ss ts : List Switch) :
    openAfter before (ss ++ ts) = openAfter (openAfter before ss) ts := List.foldl_append

/-- Intake that is open at first is closed when it was closed last. -/
theorem openAfter_true_iff (ss : List Switch) :
    openAfter true ss = true ↔ ss.getLast? ≠ some .closed := by
  rcases List.eq_nil_or_concat ss with rfl | ⟨ss, s, rfl⟩
  · exact iff_of_true rfl nofun
  · rw [List.concat_eq_append, openAfter_append, List.getLast?_concat]
    cases s with
    | opened => exact iff_of_true rfl nofun
    | closed => exact iff_of_false nofun fun h => h rfl

/-- While the collector does not run, intake is neither opened nor closed by what takes time. -/
theorem resting_keptByTime (taking : Bool) :
    KeptByTime fun a => a.isRunning = false ∧ a.accepting = taking where
  pass := fun _ _ h => h
  advance := fun a h => ⟨(isRunning_advance a).trans h.1, (stays_advance a).accepting.trans h.2⟩
  conclude := fun a h => ⟨(isRunning_conclude a).trans h.1, (stays_conclude a).accepting.trans h.2⟩
  halt := fun a h => by
    rw [flush_of_not_running h.1]
    exact h

theorem accepting_act (a : Aggregator) (x : Action) :
    (a.act x).2.accepting = openAfter a.accepting (a.switching x) := by
  cases x with
  | add e =>
    unfold act add
    dsimp only
    split <;> rfl
  | start =>
    unfold act start switching isRunning drainDeadline?
    cases a.phase <;> rfl
  | stop =>
    show a.stop.accepting = openAfter a.accepting (if a.isRunning then [.closed] else [])
    cases hrun : a.isRunning with
    | true => exact (phase_stop hrun).2
    | false => exact ((resting_keptByTime a.accepting).stop a ⟨hrun, rfl⟩).2
  | halt =>
    show a.flush.accepting = openAfter a.accepting (if a.isRunning then [.closed] else [])
    cases hrun : a.isRunning with
    | true => exact (flush_of_running hrun).1
    | false => exact congrArg accepting (flush_of_not_running hrun)
  | pass ms => rfl
  | advance => exact (stays_advance a).accepting
  | conclude => exact (stays_conclude a).accepting

/-- Intake is as the last opening or closing left it. -/
theorem accepting_exec (xs : List Action) : ∀ a : Aggregator,
    (a.exec xs).2.accepting = openAfter a.accepting (a.switches xs) :=
  switches_tell openAfter (fun _ => rfl) openAfter_append accepting_act xs

/-! ## The room of the queue -/

theorem capacity_pos (a : Aggregator) : 0 < a.capacity :=
  Nat.lt_of_lt_of_le one_pos (le_max_right _ _)

theorem capacity_of_settings (h : b.settings = a.settings) : b.capacity = a.capacity := by
  unfold capacity
  rw [h]

/-- Nothing but an offer makes the queue longer. -/
theorem length_queue_keptByTime (n : Nat) : KeptByTime fun a => a.queue.length ≤ n where
  pass := fun _ _ h => h
  advance := fun a h => by
    rw [queue_advance]
    split
    · exact n.zero_le
    · exact h
  conclude := fun a h => by
    rw [show a.conclude.queue = a.queue from
      (rest_endDrained a.deliver).2.trans (frame_deliver a).queue]
    exact h
  halt := fun a h => by
    cases hrun : a.isRunning with
    | true =>
      rw [(flush_of_running hrun).2.1]
      exact n.zero_le
    | false =>
      rw [flush_of_not_running hrun]
      exact h

/-- The queue always has room for what it holds. -/
theorem length_queue_exec (a : Aggregator) (xs : List Action) (h : a.queue.length ≤ a.capacity) :
    (a.exec xs).2.queue.length ≤ a.capacity := by
  have hkept := (settings_keptByTime a.settings).and (length_queue_keptByTime a.capacity)
  refine (exec_keeps (hkept.act (fun b e hb => ?_) fun b hb => ?_) a xs ⟨rfl, h⟩).2
  · unfold add
    split
    · next htaken =>
      rw [Bool.and_eq_true, decide_eq_true_eq, capacity_of_settings hb.1] at htaken
      refine ⟨hb.1, ?_⟩
      rw [List.length_append, List.length_singleton]
      exact htaken.2
    · exact hb
  · unfold start
    split <;> exact hb

/-! ## Refusals are counted -/

/-- The offers that were not taken. -/
def refusals (offers : List Offer) : Nat := offers.countP fun o => !o.taken

def dropped (a : Aggregator) : Nat := a.ledger.metrics.counter Name.dropped []

/-- What the aggregator writes by itself counts no refusal. -/
theorem dropped_keptByWriting (n : Nat) :
    KeptByWriting (fun _ => True) fun l => l.metrics.counter Name.dropped [] = n where
  note := fun _ _ _ h => h
  increment := fun l name k labels hname h => by
    have hother : Name.dropped ≠ name := by
      rintro rfl
      exact absurd hname (by decide)
    exact (l.metrics.counter_increment_of_name_ne name labels k l.clock hother []).trans h
  observe := fun _ _ _ _ h => h
  setGauge := fun _ _ _ _ h => h
  pass := fun _ _ h => h

/-- An offer that is refused is counted once. -/
theorem dropped_act (a : Aggregator) (x : Action) (h : a.dropped < counterBound) :
    (a.act x).2.dropped = (a.dropped + refusals (a.act x).1) % counterBound := by
  have hkept := dropped_keptByWriting a.dropped
  have hholds : Holds (fun _ => True) (fun l => l.metrics.counter Name.dropped [] = a.dropped) a :=
    ⟨fun _ _ => trivial, fun _ _ => trivial, fun _ _ _ _ => trivial, rfl⟩
  have hsame : (a.dropped + 0) % counterBound = a.dropped := Nat.mod_eq_of_lt h
  cases x with
  | add e =>
    unfold act add
    dsimp only
    split
    · exact hsame.symm
    · exact (a.ledger.metrics.counter_increment _ _ _ _ _).trans (if_pos rfl)
  | start => exact hholds.start.ledger.trans hsame.symm
  | stop => exact ((Holds.keptByTime hkept).stop a hholds).ledger.trans hsame.symm
  | halt => exact (hholds.flush hkept).ledger.trans hsame.symm
  | pass ms => exact hsame.symm
  | advance => exact ((Holds.keptByTime hkept).advance a hholds).ledger.trans hsame.symm
  | conclude => exact ((Holds.keptByTime hkept).conclude a hholds).ledger.trans hsame.symm

theorem dropped_exec (xs : List Action) : ∀ a : Aggregator, a.dropped < counterBound →
    (a.exec xs).2.dropped = (a.dropped + refusals (a.exec xs).1) % counterBound := by
  induction xs with
  | nil => exact fun a h => (Nat.mod_eq_of_lt h).symm
  | cons x rest ih =>
    intro a h
    have hact := dropped_act a x h
    have hless : (a.act x).2.dropped < counterBound := hact ▸ Nat.mod_lt _ (by decide)
    rw [exec_cons, ih _ hless, hact, Nat.mod_add_mod, Nat.add_assoc]
    unfold refusals
    rw [← List.countP_append]

/-! ## Stops end, whatever they find -/

/-- A stop that waits does so no longer than it may. -/
def Waits (a : Aggregator) : Prop :=
  ∀ d, a.phase = .draining d → d ≤ a.clock + a.settings.drainTimeout

theorem waits_of_running (h : a.isRunning = true) : Waits a := by
  intro d hphase
  unfold isRunning at h
  rw [hphase] at h
  cases h

theorem Waits.of_frame (h : Waits a) (hframe : Frame a b) : Waits b := by
  intro d hd
  rw [hframe.clock, hframe.settings]
  exact h d (hframe.phase.symm.trans hd)

theorem Waits.endDrained (h : Waits a) : Waits a.endDrained := by
  obtain heq | ⟨-, -, heq⟩ := endDrained_cases a <;> rw [heq]
  · exact h
  · exact nofun

theorem Waits.endExpired (h : Waits a) : Waits a.endExpired := by
  obtain heq | ⟨_, -, -, heq⟩ := endExpired_cases a <;> rw [heq]
  · exact h
  · exact nofun

theorem Waits.collect (h : Waits a) : Waits a.collect := by
  cases hrun : a.isRunning with
  | true => exact waits_of_running (isRunning_collect hrun)
  | false =>
    rw [collect_of_not_running hrun]
    exact h

theorem waits_keptByTime : KeptByTime Waits where
  pass := fun a ms h d hd => by
    have hbefore := h d hd
    show d ≤ a.clock + ms + a.settings.drainTimeout
    omega
  advance := fun _ h => h.collect.endDrained.endExpired
  conclude := fun a h => (h.of_frame (frame_deliver a)).endDrained
  halt := fun a h => by
    cases hrun : a.isRunning with
    | true =>
      intro d hd
      rw [(flush_of_running hrun).2.2] at hd
      cases hd
      rw [clock_flush, settings_flush]
    | false =>
      rw [flush_of_not_running hrun]
      exact h

theorem waits_act (a : Aggregator) (x : Action) (h : Waits a) : Waits (a.act x).2 := by
  refine waits_keptByTime.act (fun a e h => ?_) (fun a h => ?_) a x h
  · unfold add
    split <;> exact h
  · unfold start
    split
    · exact waits_of_running rfl
    · exact h

/-- An aggregator whose collector does not run is idle, or waits for a deadline. -/
theorem Waits.deadline (h : Waits a) (hrun : a.isRunning = false) :
    ∃ d, (a.phase = .idle ∨ a.phase = .draining d) ∧ d ≤ a.clock + a.settings.drainTimeout := by
  unfold isRunning at hrun
  cases hphase : a.phase with
  | idle => exact ⟨a.clock, .inl rfl, by omega⟩
  | draining d => exact ⟨d, .inr rfl, h d hphase⟩
  | starting | gathering w => rw [hphase] at hrun; cases hrun

theorem Winding.resting {d : Int} (h : Winding a d) : a.phase = .idle ∨ a.phase = .draining d :=
  h.imp_right And.left

/-- Whatever an aggregator does, it does nothing after a stop. -/
theorem phase_stop_of_waits (h : Waits a) : a.stop.phase = .idle := by
  cases hrun : a.isRunning with
  | true => exact (phase_stop hrun).1
  | false =>
    obtain ⟨d, hresting, hsoon⟩ := h.deadline hrun
    have hsettled : a.settle.flush = a.settle :=
      flush_of_not_running (((resting_keptByTime a.accepting).settle a ⟨hrun, rfl⟩).1)
    have hwinding := winding_settle (winding_settle hresting).resting
    unfold stop
    rw [hsettled]
    refine phase_awaitDrain _ _ hwinding ?_
    rw [(stays_settle a.settle).clock, (stays_settle a).clock]
    exact hsoon

theorem isRunning_start (h : a.phase = .idle) :
    a.start.isRunning = true ∧ a.start.accepting = true ∧ a.start.queue = a.queue := by
  unfold start
  rw [h]
  exact ⟨rfl, rfl, rfl⟩

/-! ## Every run -/

theorem add_eq_true_iff (a : Aggregator) (e : Event) :
    (a.add e).1 = true ↔ a.accepting = true ∧ a.queue.length < a.capacity := by
  unfold add
  split
  · next htaken => exact iff_of_true rfl (by simpa using htaken)
  · next hrefused => exact iff_of_false nofun (by simpa using hrefused)

/-- From `a` to `b` an event has been refused: that is counted, and nothing else has changed. -/
structure Refuses (a b : Aggregator) : Prop where
  queue : b.queue = a.queue
  openBatch : b.openBatch = a.openBatch
  stats : b.stats = a.stats
  counted : b.dropped = (a.dropped + 1) % counterBound
  others : ∀ name labels, Key.of name labels ≠ Key.of Name.dropped [] →
    b.ledger.metrics.counter name labels = a.ledger.metrics.counter name labels

theorem add_of_taken {e : Event} (h : (a.add e).1 = true) :
    (a.add e).2 = { a with queue := a.queue ++ [e] } := by
  unfold add at h ⊢
  split at h
  · next htaken => rw [if_pos htaken]
  · cases h

theorem refuses_add {e : Event} (h : (a.add e).1 = false) : Refuses a (a.add e).2 := by
  unfold add at h ⊢
  split at h
  · cases h
  · next hrefused =>
    rw [if_neg hrefused]
    exact ⟨rfl, rfl, rfl, (a.ledger.metrics.counter_increment _ _ _ _ _).trans (if_pos rfl),
      fun name labels hkey => a.ledger.metrics.counter_increment_of_ne _ _ _ _ hkey⟩

/-- There is room in an empty queue. -/
theorem add_of_empty (haccepting : a.accepting = true) (hqueue : a.queue = []) (e : Event) :
    (a.add e).1 = true :=
  (add_eq_true_iff a e).2 ⟨haccepting, hqueue ▸ a.capacity_pos⟩

/-- Intake after a run that began with open intake and an empty queue, the offers and the openings and
closings of which are given. `size`, the queue has room for what it holds; `room`, which is what the settings
say where they are in range; `taken_iff`, an event is taken if intake was not closed last and there is room;
`takes`, then it enters the queue, and nothing else changes; `refuses`, else it is counted, and nothing else
changes; `dropped`, the counter tells how many were refused; `restarts`, after a stop and a start of a running
aggregator the next event is taken; `revives`, and after any stop and start it is, as soon as the collector
has had its turn. -/
structure Backpressure (settings : Config) (offers : List Offer) (ss : List Switch)
    (a : Aggregator) : Prop where
  size : a.queue.length ≤ Max.max settings.maxQueueSize 1
  room : config.violations settings = [] → Max.max settings.maxQueueSize 1 = settings.maxQueueSize
  taken_iff : ∀ e, (a.add e).1 = true ↔
    ss.getLast? ≠ some .closed ∧ a.queue.length < Max.max settings.maxQueueSize 1
  takes : ∀ e, (a.add e).1 = true → (a.add e).2 = { a with queue := a.queue ++ [e] }
  refuses : ∀ e, (a.add e).1 = false → Refuses a (a.add e).2
  dropped : a.dropped = refusals offers % counterBound
  restarts : a.isRunning = true → ∀ e, (a.stop.start.add e).1 = true
  revives : ∀ e, (a.stop.start.advance.add e).1 = true

/-- In range, the settings say how much room the queue has. -/
theorem one_le_maxQueueSize {settings : Aggregator.Config} (h : config.violations settings = []) :
    1 ≤ settings.maxQueueSize := by
  have hrange : (Config.Range.between 1 1000000).hasNat settings.maxQueueSize = true :=
    Config.Setting.violations_nat (Config.Section.violations_eq_nil_iff.1 h config.settings[2]
      (List.getElem_mem (by decide)))
  exact (Config.Range.hasNat_between.1 hrange).1

/-- **Intake takes an event exactly when it is open and there is room, and every refusal is counted**, at
every point of every run. -/
theorem exec_backpressure (settings : Aggregator.Config) (handlers : Handlers)
    (metrics : Metrics.Config) (clock : Int) (actions : List Action) :
    Backpressure settings ((fresh settings handlers metrics clock).exec actions).1
      ((fresh settings handlers metrics clock).switches actions)
      ((fresh settings handlers metrics clock).exec actions).2 := by
  have hsettings := settings_exec (fresh settings handlers metrics clock) actions
  have hsize := length_queue_exec (fresh settings handlers metrics clock) actions (Nat.zero_le _)
  have hopen := accepting_exec actions (fresh settings handlers metrics clock)
  have hdropped := dropped_exec actions (fresh settings handlers metrics clock)
    (show 0 < counterBound by decide)
  have hwaits := exec_keeps waits_act (fresh settings handlers metrics clock) actions nofun
  generalize (fresh settings handlers metrics clock).exec actions = r at *
  have hcapacity : r.2.capacity = Max.max settings.maxQueueSize 1 :=
    congrArg (fun s => Max.max s.maxQueueSize 1) hsettings
  obtain ⟨hrunning, haccepting, hqueue⟩ := isRunning_start (phase_stop_of_waits hwaits)
  refine ⟨hsize, fun h => max_eq_left (one_le_maxQueueSize h), fun e => ?_,
    fun e => add_of_taken, fun e => refuses_add, ?_, fun hrun => ?_, ?_⟩
  · rw [add_eq_true_iff, hopen, hcapacity]
    exact and_congr_left' (openAfter_true_iff _)
  · rw [hdropped]
    exact congrArg (· % counterBound) (Nat.zero_add _)
  · exact add_of_empty haccepting (hqueue.trans (flushed_stop hrun).queue)
  · refine add_of_empty ((stays_advance _).accepting.trans haccepting) ?_
    rw [queue_advance, hrunning]
    rfl

/-- There is no room for a fourth event before the start, and intake is closed between a stop and a start. -/
example : ((fresh { Config.standard with maxQueueSize := 3 } ⟨none, []⟩ .standard 0).exec
    [offer "a", offer "b", offer "c", offer "d", .start, .stop, offer "e", .start,
      offer "f"]).1.map Offer.taken =
      [true, true, true, false, false, true] := by
  decide +kernel

end Ingress.Aggregator
