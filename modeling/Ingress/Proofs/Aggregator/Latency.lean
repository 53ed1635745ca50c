import Ingress.Proofs.Aggregator.Isolation
import Ingress.Proofs.Aggregator.View
import Ingress.Proofs.Config.Limits
import Mathlib

/-!
# No event waits longer than a window

A window closes a fixed time after it opened, whenever its events came. Still, in a run without stalls an
event leaves within one window of its acceptance: at the end of the instant at which it was accepted, it
has left or is in an open window, which was opened no later. A window that fills up before its time lets
leave all that it holds.

* `Beat`, `script` : what can happen in a run without stalls, and the actions that it is made of;
* `Ledger.departedBy` : the events that have left by a time;
* `Due es since a` : events that were accepted by an instant have left in time, or are in a window that
  closes in time, or it is still that instant;
* `Punctual es since a` : moreover no window is overdue; `Punctual.advance`, `Punctual.flush`, ... : the
  steps, `Punctual.exec` : a run without stalls;
* `exec_punctual` : what is accepted while the aggregator runs leaves within a window.
-/

namespace Ingress

/-! ## Departures up to a time -/

namespace Ledger

variable {l l' : Ledger} {time : Int}

/-- The events of the batches that left by a time. -/
def departedBy (l : Ledger) (time : Int) : List Event :=
  ((l.departures.filter fun d => d.1 ≤ time).map Prod.snd).flatten

theorem departedBy_prefix {more : List (Int × List Event)}
    (h : l'.departures = l.departures ++ more) : l.departedBy time <+: l'.departedBy time := by
  unfold departedBy
  rw [h, List.filter_append, List.map_append, List.flatten_append]
  exact List.prefix_append _ _

theorem departedBy_sublist (l : Ledger) (time : Int) :
    (l.departedBy time).Sublist l.dispatched.flatten := by
  rw [dispatched_eq_map]
  exact List.Sublist.flatten (List.filter_sublist.map Prod.snd)

/-- By now everything that leaves has left. -/
theorem departedBy_of_le (h : ∀ d ∈ l.departures, d.1 ≤ time) :
    l.departedBy time = l.dispatched.flatten := by
  unfold departedBy
  rw [dispatched_eq_map, List.filter_eq_self.2 fun d hd => decide_eq_true (h d hd)]

end Ledger

namespace Aggregator

/-! ## Runs without stalls -/

def Action.isPass : Action → Bool
  | .pass _ => true
  | _ => false

/-- What can happen in a run without stalls: an action, or the end of the present instant, at which
everything due is done before a millisecond passes. -/
inductive Beat where
  | act (x : Action) (instant : x.isPass = false)
  | turn

def Beat.actions : Beat → List Action
  | .act x _ => [x]
  | .turn => settling ++ [.pass 1]

/-- The actions of a run without stalls. -/
def script (beats : List Beat) : List Action := beats.flatMap Beat.actions

variable {a b : Aggregator} {batches : List (List Event)} {es : List Event} {since : Int}

/-! ## What leaves in a step -/

/-- From `a` to `b` no time passes, and what leaves, leaves now. -/
structure Departs (a b : Aggregator) : Prop where
  settings : b.settings = a.settings
  clock : b.clock = a.clock
  departures : ∃ batches : List (List Event), b.ledger.departures =
    a.ledger.departures ++ batches.map fun batch => (a.clock, batch)

theorem Stays.departs (h : Stays a b) (hsame : b.ledger.departures = a.ledger.departures) :
    Departs a b := ⟨h.settings, h.clock, [], hsame.trans (List.append_nil _).symm⟩

theorem Sends.departures (h : Sends a b batches) : b.ledger.departures =
    a.ledger.departures ++ batches.map fun batch => (a.clock, batch) := by
  rw [Ledger.departures_append h.traffic]
  congr 1
  unfold Ledger.departuresIn
  rw [List.filterMap_map, ← List.filterMap_eq_map]
  rfl

theorem Sends.departs (h : Sends a b batches) (hstays : Stays a b) : Departs a b :=
  ⟨hstays.settings, hstays.clock, batches, h.departures⟩

theorem departures_deliver (a : Aggregator) : a.deliver.ledger.departures = a.ledger.departures := by
  refine (deliver_moves a).departures (List.forall_mem_append.2 ⟨?_, ?_⟩)
  · intro what hwhat
    obtain ⟨j, _, hj⟩ := List.mem_flatMap.1 hwhat
    exact j.batchesOf_firstMoves a.handlers what hj
  · intro what hwhat
    obtain ⟨j, _, hj⟩ := List.mem_flatMap.1 hwhat
    exact j.batchesOf_spreadMoves _ what hj

theorem departs_gather (a : Aggregator) (w : Window) (queue : List Event) :
    Departs a (a.gather w queue) := (sends_gather queue a w).departs (stays_gather queue a w)

theorem departs_gatherAnew (a : Aggregator) : Departs a a.gatherAnew :=
  (sends_gatherAnew a).departs (stays_gatherAnew a)

theorem departs_dispatch (a : Aggregator) (w : Window) : Departs a (a.dispatch w) :=
  (sends_dispatch a w false).departs (frame_dispatch a w).toStays

theorem Departs.departed (h : Departs a b) (ha : ∀ d ∈ a.ledger.departures, d.1 ≤ a.clock) :
    ∀ d ∈ b.ledger.departures, d.1 ≤ b.clock := by
  obtain ⟨batches, hb⟩ := h.departures
  rw [hb, h.clock]
  refine List.forall_mem_append.2 ⟨ha, fun d hd => ?_⟩
  obtain ⟨batch, _, rfl⟩ := List.mem_map.1 hd
  exact le_rfl

/-! ## Events that are due -/

/-- Events that were accepted by an instant have left within a window from then on; or they are, as far as
they have not left, in a window that was opened by that instant; or it is still that instant. -/
inductive Due (es : List Event) (since : Int) (a : Aggregator) : Prop
  | left (left : es <+: a.ledger.departedBy (since + a.settings.batchWindow))
  | inside (w : Window) (phase : a.phase = .gathering w) (opened : w.opened ≤ since)
      (held : es <+: a.ledger.dispatched.flatten ++ w.batch)
  | present (running : a.isRunning = true) (now : a.clock = since) (held : es <+: a.contents)

theorem Departs.left (h : Departs a b)
    (ha : es <+: a.ledger.departedBy (since + a.settings.batchWindow)) :
    es <+: b.ledger.departedBy (since + b.settings.batchWindow) := by
  obtain ⟨batches, hb⟩ := h.departures
  rw [h.settings]
  exact ha.trans (Ledger.departedBy_prefix hb)

/-- What has left by now has left in time, while there is time. -/
theorem left_of_dispatched (hdeparted : ∀ d ∈ a.ledger.departures, d.1 ≤ a.clock)
    (hclock : a.clock ≤ since + a.settings.batchWindow) (h : es <+: a.ledger.dispatched.flatten) :
    es <+: a.ledger.departedBy (since + a.settings.batchWindow) := by
  rwa [Ledger.departedBy_of_le fun d hd => (hdeparted d hd).trans hclock]

/-- Gathering leaves due events in time: those of the window if time is left, all at their instant. -/
theorem due_gather (queue : List Event) : ∀ (a : Aggregator) (w : Window),
    (∀ d ∈ a.ledger.departures, d.1 ≤ a.clock) → w.opened ≤ since →
    a.clock ≤ since + a.settings.batchWindow →
    (es <+: a.ledger.dispatched.flatten ++ w.batch ∨
      a.clock = since ∧ es <+: a.ledger.dispatched.flatten ++ w.batch ++ queue) →
    Due es since (a.gather w queue) := by
  induction queue with
  | nil =>
    intro a w _ hopened _ hheld
    refine .inside w rfl hopened (hheld.elim id fun h => ?_)
    rw [List.append_nil] at h
    exact h.2
  | cons e rest ih =>
    intro a w hdeparted hopened hclock hheld
    unfold gather
    dsimp only
    split
    · have hsent := departs_dispatch a { w with batch := w.batch ++ [e] }
      have hleft := dispatched_dispatch a { w with batch := w.batch ++ [e] }
      have hdeparted' := hsent.departed hdeparted
      rcases hheld with hheld | ⟨hnow, hheld⟩
      · -- the full window takes them all along
        refine .left ((departs_gather ((a.dispatch { w with batch := w.batch ++ [e] }).openWindow
          rest).2 _ rest).left (left_of_dispatched hdeparted' ?_ ?_))
        · exact hsent.clock.trans_le (hclock.trans_eq (by rw [← hsent.settings]; rfl))
        · rw [dispatched_openWindow, hleft, ← List.append_assoc]
          exact hheld.trans (List.prefix_append _ _)
      · refine ih _ _ hdeparted' (hsent.clock.trans hnow).le ?_ (.inr ⟨hsent.clock.trans hnow, ?_⟩)
        · exact hsent.clock.trans_le (hclock.trans_eq (by rw [← hsent.settings]; rfl))
        · rw [dispatched_openWindow, hleft]
          simpa [openWindow] using hheld
    · refine ih a _ hdeparted hopened hclock (hheld.imp (fun h => ?_) fun h => ⟨h.1, ?_⟩)
      · rw [← List.append_assoc]
        exact h.trans (List.prefix_append _ _)
      · simpa using h.2

/-! ## Steps -/

/-- The events are due, no window is overdue, and whatever has left, has left by now. -/
structure Punctual (es : List Event) (since : Int) (a : Aggregator) : Prop where
  window : 1 ≤ a.settings.batchWindow
  opened : ∀ w, a.phase = .gathering w → w.opened ≤ a.clock
  closes : ∀ w, a.phase = .gathering w → a.clock ≤ w.opened + a.settings.batchWindow
  departed : ∀ d ∈ a.ledger.departures, d.1 ≤ a.clock
  due : Due es since a

/-- Everything that waited is in an open window, whose time is not up. -/
structure Gathered (a : Aggregator) : Prop where
  queue : a.queue = []
  phase : ∃ w, a.phase = .gathering w ∧ w.opened ≤ a.clock ∧
    a.clock < w.opened + a.settings.batchWindow

theorem gathered_gather (queue : List Event) {w : Window} (hopened : w.opened ≤ a.clock)
    (hopen : a.clock < w.opened + a.settings.batchWindow) : Gathered (a.gather w queue) := by
  have hstays := stays_gather queue a w
  obtain ⟨hqueue, w', hphase, hw'⟩ := phase_gather queue a w
  refine ⟨hqueue, w', hphase, ?_⟩
  rw [hstays.clock, hstays.settings]
  omega

/-- Gathering into a window whose time is not up makes nothing late. -/
theorem punctual_gather (hwindow : 1 ≤ a.settings.batchWindow)
    (hdeparted : ∀ d ∈ a.ledger.departures, d.1 ≤ a.clock) (queue : List Event) {w : Window}
    (hopened : w.opened ≤ a.clock) (hopen : a.clock < w.opened + a.settings.batchWindow)
    (hdue : Due es since (a.gather w queue)) :
    Punctual es since (a.gather w queue) ∧ Gathered (a.gather w queue) := by
  have hgathered := gathered_gather queue hopened hopen
  have hdeparts := departs_gather a w queue
  obtain ⟨w', hphase, hopened', hopen'⟩ := hgathered.phase
  refine ⟨⟨?_, fun v hv => ?_, fun v hv => ?_, hdeparts.departed hdeparted, hdue⟩, hgathered⟩
  · rwa [hdeparts.settings]
  · rw [hphase] at hv
    cases hv
    exact hopened'
  · rw [hphase] at hv
    cases hv
    exact hopen'.le

theorem punctual_gatherAnew (hwindow : 1 ≤ a.settings.batchWindow)
    (hdeparted : ∀ d ∈ a.ledger.departures, d.1 ≤ a.clock)
    (hheld : es <+: a.ledger.departedBy (since + a.settings.batchWindow) ∨
      a.clock = since ∧ es <+: a.ledger.dispatched.flatten ++ a.queue) :
    Punctual es since a.gatherAnew ∧ Gathered a.gatherAnew := by
  refine punctual_gather (a := (a.openWindow a.queue).2) hwindow hdeparted a.queue le_rfl ?_ ?_
  · show a.clock < a.clock + (a.settings.batchWindow : Int)
    omega
  · rcases hheld with hleft | ⟨hnow, hheld⟩
    · exact .left ((departs_gatherAnew a).left hleft)
    · refine due_gather a.queue _ _ hdeparted hnow.le ?_ (.inr ⟨hnow, ?_⟩)
      · show a.clock ≤ since + (a.settings.batchWindow : Int)
        omega
      · rw [dispatched_openWindow]
        simpa [openWindow] using hheld

namespace Punctual

theorem left (h : Punctual es since a) (hrun : a.isRunning = false) :
    es <+: a.ledger.departedBy (since + a.settings.batchWindow) := by
  cases h.due with
  | left hleft => exact hleft
  | inside w hphase _ _ => exact absurd hphase (phase_ne_gathering hrun w)
  | present hrunning _ _ => rw [hrun] at hrunning; cases hrunning

/-- A window closes at its time, if the collector comes at every instant. -/
theorem collect (h : Punctual es since a) (hrun : a.isRunning = true) :
    Punctual es since a.collect ∧ Gathered a.collect := by
  unfold Aggregator.collect
  rcases phase_of_running hrun with hphase | ⟨w, hphase⟩
  · rw [hphase]
    refine punctual_gatherAnew h.window h.departed ?_
    cases h.due with
    | left hleft => exact .inl hleft
    | inside w hw _ _ => rw [hphase] at hw; cases hw
    | present _ hnow hheld =>
      refine .inr ⟨hnow, ?_⟩
      simpa [contents, openBatch, hphase] using hheld
  · rw [hphase]
    have hcloses := h.closes w hphase
    dsimp only
    split
    · have hsent := departs_dispatch a w
      have hleft := dispatched_dispatch a w
      have hdeparted := hsent.departed h.departed
      refine punctual_gatherAnew (hsent.settings ▸ h.window) hdeparted ?_
      cases h.due with
      | left hdone => exact .inl (hsent.left hdone)
      | inside v hv hopened hheld =>
        -- the window was opened by `since`, so its time is up within a window from then on
        rw [hphase] at hv
        cases hv
        refine .inl (left_of_dispatched hdeparted ?_ (hleft ▸ hheld))
        rw [hsent.clock, hsent.settings]
        omega
      | present _ hnow hheld =>
        refine .inr ⟨hsent.clock.trans hnow, ?_⟩
        rw [hleft, (frame_dispatch a w).queue]
        simpa [contents, openBatch, hphase] using hheld
    · next hover =>
      have hopened := h.opened w hphase
      have hopen : a.clock < w.opened + a.settings.batchWindow := by
        simpa [isOver] using hover
      refine punctual_gather h.window h.departed a.queue hopened hopen ?_
      cases h.due with
      | left hdone => exact .left ((departs_gather a w a.queue).left hdone)
      | inside v hv hearly hheld =>
        rw [hphase] at hv
        cases hv
        exact due_gather a.queue a _ h.departed hearly (by omega) (.inl hheld)
      | present _ hnow hheld =>
        refine due_gather a.queue a w h.departed (by omega) (by omega) (.inr ⟨hnow, ?_⟩)
        simpa [contents, openBatch, hphase] using hheld

end Punctual

/-! ## Steps of the aggregator -/

theorem advance_of_running (h : a.isRunning = true) : a.advance = a.collect := by
  have hunstopped := drainDeadline?_of_running (isRunning_collect h)
  unfold advance
  rw [endDrained_of_unstopped hunstopped, endExpired_of_unstopped hunstopped]

theorem departs_advance (a : Aggregator) : Departs a a.advance :=
  (sends_advance a).departs (stays_advance a)

theorem departs_conclude (a : Aggregator) : Departs a a.conclude := by
  refine (stays_conclude a).departs ?_
  unfold conclude
  rw [(pending_endDrained a.deliver).2]
  exact departures_deliver a

theorem conclude_of_running (h : a.isRunning = true) : a.conclude = a.deliver :=
  endDrained_of_unstopped (drainDeadline?_of_running ((isRunning_of_frame (frame_deliver a)).trans h))

theorem departs_flush (a : Aggregator) : Departs a a.flush :=
  ⟨settings_flush a, clock_flush a, _, (sends_flush a).departures⟩

theorem Gathered.of_frame (h : Gathered a) (hframe : Frame a b) : Gathered b := by
  obtain ⟨w, hphase, hopened, hopen⟩ := h.phase
  refine ⟨hframe.queue.trans h.queue, w, hframe.phase.trans hphase, ?_⟩
  rw [hframe.clock, hframe.settings]
  exact ⟨hopened, hopen⟩

namespace Punctual

theorem of_frame (h : Punctual es since a) (hframe : Frame a b)
    (hsame : b.ledger.departures = a.ledger.departures) : Punctual es since b := by
  have hdispatched : b.ledger.dispatched = a.ledger.dispatched := by
    rw [Ledger.dispatched_eq_map, Ledger.dispatched_eq_map, hsame]
  have hdeparts := hframe.toStays.departs hsame
  refine ⟨hframe.settings ▸ h.window, fun w hw => ?_, fun w hw => ?_, hdeparts.departed h.departed, ?_⟩
  · rw [hframe.phase] at hw
    rw [hframe.clock]
    exact h.opened w hw
  · rw [hframe.phase] at hw
    rw [hframe.clock, hframe.settings]
    exact h.closes w hw
  · cases h.due with
    | left hleft => exact .left (hdeparts.left hleft)
    | inside w hphase hopened hheld =>
      exact .inside w (hframe.phase.trans hphase) hopened (hdispatched ▸ hheld)
    | present hrun hnow hheld =>
      refine .present ((isRunning_of_frame hframe).trans hrun) (hframe.clock.trans hnow) ?_
      rwa [contents_of_frame hframe hdispatched]

/-- Once the collector does not run, nothing is due any more. -/
theorem of_resting (h : Punctual es since a) (hdeparts : Departs a b) (hrun : b.isRunning = false)
    (hleft : es <+: b.ledger.departedBy (since + b.settings.batchWindow)) :
    Punctual es since b := by
  have hphase := phase_ne_gathering hrun
  exact ⟨hdeparts.settings ▸ h.window, fun w hw => absurd hw (hphase w),
    fun w hw => absurd hw (hphase w), hdeparts.departed h.departed, .left hleft⟩

theorem advance (h : Punctual es since a) : Punctual es since a.advance := by
  cases hrun : a.isRunning with
  | true =>
    rw [advance_of_running hrun]
    exact (h.collect hrun).1
  | false =>
    have hdeparts := departs_advance a
    exact h.of_resting hdeparts ((isRunning_advance a).trans hrun) (hdeparts.left (h.left hrun))

theorem conclude (h : Punctual es since a) : Punctual es since a.conclude := by
  cases hrun : a.isRunning with
  | true =>
    rw [conclude_of_running hrun]
    exact h.of_frame (frame_deliver a) (departures_deliver a)
  | false =>
    have hdeparts := departs_conclude a
    exact h.of_resting hdeparts ((isRunning_conclude a).trans hrun) (hdeparts.left (h.left hrun))

/-- At the end of an instant nothing waits outside an open window. -/
theorem settle (h : Punctual es since a) :
    Punctual es since a.settle ∧ (a.isRunning = true → Gathered a.settle) := by
  refine ⟨h.advance.conclude, fun hrun => ?_⟩
  unfold Aggregator.settle
  rw [advance_of_running hrun, conclude_of_running (isRunning_collect hrun)]
  exact (h.collect hrun).2.of_frame (frame_deliver _)

/-- The beginning of a stop lets everything leave. -/
theorem flush (h : Punctual es since a) : Punctual es since a.flush := by
  have hdeparts := departs_flush a
  refine h.of_resting hdeparts (isRunning_flush a) ?_
  cases hrun : a.isRunning with
  | false =>
    rw [flush_of_not_running hrun]
    exact h.left hrun
  | true =>
    have hall : a.flush.ledger.dispatched.flatten = a.contents := by
      rw [← contents_flush]
      exact (contents_of_resting (isRunning_flush a) (flush_of_running hrun).2.1).symm
    have hintime : a.clock ≤ since + a.settings.batchWindow → es <+: a.contents →
        es <+: a.flush.ledger.departedBy (since + a.flush.settings.batchWindow) := by
      intro hclock hheld
      refine left_of_dispatched (hdeparts.departed h.departed) ?_ (hall ▸ hheld)
      rwa [hdeparts.clock, hdeparts.settings]
    cases h.due with
    | left hleft => exact hdeparts.left hleft
    | inside w hphase hopened hheld =>
      have hcloses := h.closes w hphase
      refine hintime (by omega) (hheld.trans ?_)
      unfold contents openBatch
      rw [hphase]
      exact List.prefix_append _ _
    | present _ hnow hheld => exact hintime (by omega) hheld

theorem add (h : Punctual es since a) (e : Event) : Punctual es since (a.add e).2 := by
  unfold Aggregator.add
  split
  · refine ⟨h.window, h.opened, h.closes, h.departed, ?_⟩
    cases h.due with
    | left hleft => exact .left hleft
    | inside w hphase hopened hheld => exact .inside w hphase hopened hheld
    | present hrun hnow hheld =>
      refine .present hrun hnow (hheld.trans ?_)
      show a.contents <+: a.ledger.dispatched.flatten ++ a.openBatch ++ (a.queue ++ [e])
      rw [← List.append_assoc]
      exact List.prefix_append _ _
  · exact h.of_frame ⟨⟨rfl, rfl, rfl, rfl, rfl⟩, rfl, rfl⟩ rfl

theorem start (h : Punctual es since a) : Punctual es since a.start := by
  unfold Aggregator.start
  split
  · next hphase =>
    have hidle : a.isRunning = false := by
      unfold isRunning
      rw [hphase]
    exact ⟨h.window, fun w hw => (by cases hw), fun w hw => (by cases hw), h.departed,
      .left (h.left hidle)⟩
  · exact h

/-- While the collector does not run, time may pass as it likes. -/
theorem resting_keptByTime (es : List Event) (since : Int) :
    KeptByTime fun a => a.isRunning = false ∧ Punctual es since a where
  pass := fun a ms h => by
    have hphase := phase_ne_gathering h.1
    refine ⟨h.1, h.2.window, fun w hw => absurd hw (hphase w), fun w hw => absurd hw (hphase w),
      fun d hd => ?_, .left (h.2.left h.1)⟩
    have hdeparted := h.2.departed d hd
    show d.1 ≤ a.clock + ms
    omega
  advance := fun a h => ⟨(isRunning_advance a).trans h.1, h.2.advance⟩
  conclude := fun a h => ⟨(isRunning_conclude a).trans h.1, h.2.conclude⟩
  halt := fun a h => ⟨isRunning_flush a, h.2.flush⟩

theorem stop (h : Punctual es since a) : Punctual es since a.stop := by
  have hkept := resting_keptByTime es since
  exact (hkept.awaitDrain _ _ (hkept.settle _ ⟨isRunning_flush _, h.settle.1.flush⟩)).2

/-- An instant ends: what is due is done, and a millisecond passes. -/
theorem turn (h : Punctual es since a) : Punctual es since (a.settle.pass 1) := by
  obtain ⟨hsettled, hgathered⟩ := h.settle
  cases hrun : a.isRunning with
  | false =>
    have hkept := resting_keptByTime es since
    exact (hkept.pass _ 1 (hkept.settle a ⟨hrun, h⟩)).2
  | true =>
    obtain ⟨hqueue, w, hphase, hopened, hopen⟩ := hgathered hrun
    have hnext : (a.settle.pass 1).clock = a.settle.clock + 1 := rfl
    refine ⟨hsettled.window, fun v hv => ?_, fun v hv => ?_, fun d hd => ?_, ?_⟩
    · obtain rfl : w = v := Phase.gathering.inj (hphase.symm.trans hv)
      omega
    · obtain rfl : w = v := Phase.gathering.inj (hphase.symm.trans hv)
      show _ ≤ w.opened + (a.settle.settings.batchWindow : Int)
      omega
    · have hdeparted := hsettled.departed d hd
      omega
    · cases hsettled.due with
      | left hleft => exact .left hleft
      | inside v hv hearly hheld => exact .inside v hv hearly hheld
      | present _ hnow hheld =>
        -- the window that is open was opened by this instant, and nothing waits outside
        refine .inside w hphase (hopened.trans_eq hnow) ?_
        have hcontents : a.settle.contents = a.settle.ledger.dispatched.flatten ++ w.batch := by
          simp [contents, openBatch, hphase, hqueue]
        exact hcontents ▸ hheld

theorem act (h : Punctual es since a) {x : Action} (hx : x.isPass = false) :
    Punctual es since (a.act x).2 := by
  cases x with
  | add e => exact h.add e
  | start => exact h.start
  | stop => exact h.stop
  | halt => exact h.flush
  | pass ms => cases hx
  | advance => exact h.advance
  | conclude => exact h.conclude

/-- In a run without stalls nothing gets late. -/
theorem exec (beats : List Beat) : ∀ {a : Aggregator}, Punctual es since a →
    Punctual es since (a.exec (script beats)).2 := by
  induction beats with
  | nil => exact fun h => h
  | cons beat rest ih =>
    intro a h
    show Punctual es since (a.exec (beat.actions ++ script rest)).2
    rw [exec_append]
    refine ih ?_
    cases beat with
    | act x hx => exact h.act hx
    | turn => exact h.turn

end Punctual

/-! ## Every run without stalls -/

theorem one_le_batchWindow {settings : Aggregator.Config} (h : config.violations settings = []) :
    1 ≤ settings.batchWindow := by
  have hrange : (Config.Range.between 1 60000).hasNat settings.batchWindow = true :=
    Config.Setting.violations_nat (Config.Section.violations_eq_nil_iff.1 h config.settings[0]
      (List.getElem_mem (by decide)))
  exact (Config.Range.hasNat_between.1 hrange).1

theorem settings_keptByTime (settings : Aggregator.Config) :
    KeptByTime fun a => a.settings = settings where
  pass := fun _ _ h => h
  advance := fun a h => (stays_advance a).settings.trans h
  conclude := fun a h => (stays_conclude a).settings.trans h
  halt := fun a h => (settings_flush a).trans h

theorem settings_act (a : Aggregator) (x : Action) : (a.act x).2.settings = a.settings := by
  refine (settings_keptByTime a.settings).act (fun b e h => ?_) (fun b h => ?_) a x rfl
  · unfold Aggregator.add
    split <;> exact h
  · unfold Aggregator.start
    split <;> exact h

theorem settings_exec (a : Aggregator) (xs : List Action) : (a.exec xs).2.settings = a.settings :=
  exec_keeps (P := fun b => b.settings = a.settings)
    (fun b x h => (settings_act b x).trans h) a xs rfl

/-- What was accepted by a point of a run, at which the state is `a`, leaves within a window from then
on. After `more` offers, when the state is `b`: `left`, at the end of the last instant of that window it
has left, at an instant of the window; `waiting`, after that instant all that still waits was offered
later. -/
structure LeavesInTime (a : List Offer × Aggregator) (more : List Offer) (b : Aggregator) : Prop where
  left : a.2.clock + a.2.settings.batchWindow ≤ b.clock →
    accepted a.1 <+: b.settle.ledger.departedBy (a.2.clock + a.2.settings.batchWindow)
  waiting : a.2.clock + a.2.settings.batchWindow < b.clock →
    b.openBatch ++ b.queue <:+ accepted more

namespace Punctual

/-- At the end of the last instant of a window everything that was due has left. -/
theorem left_of_le (h : Punctual es since a) (hclock : since + a.settings.batchWindow ≤ a.clock) :
    es <+: a.settle.ledger.departedBy (since + a.settings.batchWindow) := by
  obtain ⟨hsettled, hgathered⟩ := h.settle
  have hstays := stays_settle a
  rw [← hstays.settings]
  cases hrun : a.isRunning with
  | false =>
    have hrests : a.settle.isRunning = false :=
      (isRunning_conclude a.advance).trans ((isRunning_advance a).trans hrun)
    exact hsettled.left hrests
  | true =>
    obtain ⟨_, w, hphase, _, hopen⟩ := hgathered hrun
    rw [hstays.clock, hstays.settings] at hopen
    cases hsettled.due with
    | left hleft => exact hleft
    | inside v hv hearly _ =>
      obtain rfl : w = v := Phase.gathering.inj (hphase.symm.trans hv)
      omega
    | present _ hnow _ =>
      have hwindow := h.window
      have hclock' := hstays.clock
      omega

/-- After that instant it has left whether or not anything else is done. -/
theorem left_of_lt (h : Punctual es since a) (hclock : since + a.settings.batchWindow < a.clock) :
    es <+: a.ledger.departedBy (since + a.settings.batchWindow) := by
  cases h.due with
  | left hleft => exact hleft
  | inside w hphase hearly _ =>
    have hcloses := h.closes w hphase
    omega
  | present _ hnow _ => omega

theorem leavesInTime {offers more : List Offer} (h : Punctual (accepted offers) a.clock b)
    (hsettings : b.settings = a.settings)
    (hcontents : b.contents = accepted offers ++ accepted more) :
    LeavesInTime (offers, a) more b := by
  refine ⟨fun hclock => ?_, fun hclock => ?_⟩
  · rw [← hsettings] at hclock ⊢
    exact h.left_of_le hclock
  · rw [← hsettings] at hclock
    have hleft := h.left_of_lt hclock
    have hlength := hleft.length_le.trans (Ledger.departedBy_sublist b.ledger _).length_le
    have hwaiting : b.ledger.dispatched.flatten ++ (b.openBatch ++ b.queue) =
        accepted offers ++ accepted more := by
      rw [← hcontents, ← List.append_assoc]
      rfl
    obtain ⟨later, hlater⟩ := List.prefix_of_prefix_length_le (hwaiting ▸ List.prefix_append _ _)
      (List.prefix_append b.ledger.dispatched.flatten (b.openBatch ++ b.queue)) hlength
    rw [← hlater, List.append_assoc] at hwaiting
    exact ⟨later, List.append_cancel_left hwaiting⟩

/-- Before anything is offered nothing is due. -/
theorem of_fresh {settings : Aggregator.Config} (hsettings : config.violations settings = [])
    (handlers : Handlers) (metrics : Metrics.Config) (clock since : Int) :
    Punctual [] since (fresh settings handlers metrics clock) where
  window := one_le_batchWindow hsettings
  opened := fun w hw => by cases hw
  closes := fun w hw => by cases hw
  departed := fun d hd => by cases hd
  due := .left List.nil_prefix

end Punctual

/-- **What has been accepted by an instant at which the aggregator runs, leaves within a window**, in every
run without stalls, whatever is accepted afterwards. -/
theorem exec_punctual {settings : Aggregator.Config} (hsettings : config.violations settings = [])
    (handlers : Handlers) (metrics : Metrics.Config) (clock : Int) (before after : List Beat)
    (hrun : ((fresh settings handlers metrics clock).exec (script before)).2.isRunning = true) :
    LeavesInTime ((fresh settings handlers metrics clock).exec (script before))
      (((fresh settings handlers metrics clock).exec (script before)).2.exec (script after)).1
      (((fresh settings handlers metrics clock).exec (script before)).2.exec (script after)).2 := by
  have hcontents := contents_exec (fresh settings handlers metrics clock) (script before)
  have hpunctual := (Punctual.of_fresh hsettings handlers metrics clock clock).exec before
  generalize (fresh settings handlers metrics clock).exec (script before) = a at hrun hcontents hpunctual ⊢
  have haccepted : a.2.contents = accepted a.1 := hcontents
  have hdue : Punctual (accepted a.1) a.2.clock a.2 :=
    { hpunctual with due := .present hrun rfl (haccepted ▸ List.prefix_rfl) }
  refine (hdue.exec after).leavesInTime (settings_exec a.2 (script after)) ?_
  rw [contents_exec, haccepted]

/-- A window of three milliseconds. -/
def quick : Aggregator.Config := { Config.standard with batchWindow := 3 }

/-- An event that waits for the start. -/
def sampleBefore : List Beat := [.act (offer "a") rfl, .act .start rfl]

/-- An event that joins the window, and one at the instant at which it closes. -/
def sampleAfter : List Beat :=
  [.turn, .act (offer "b") rfl, .turn, .turn, .act (offer "c") rfl, .turn]

/-- The aggregator after the start, and after the second event has waited for a millisecond. -/
def sampleStates : (List Offer × Aggregator) × (List Offer × Aggregator) :=
  let before := (fresh quick ⟨none, []⟩ .standard 0).exec (script sampleBefore)
  (before, before.2.exec (script sampleAfter))

theorem sampleBeats_punctual :
    config.violations quick = [] ∧ sampleStates.1.2.isRunning = true ∧
      sampleStates.1.2.clock = 0 ∧ sampleStates.2.2.clock = 4 ∧
      (accepted sampleStates.1.1).map Event.gameId = ["a"] ∧
      accepted sampleStates.1.1 <+: sampleStates.2.2.settle.ledger.departedBy 3 ∧
      (sampleStates.2.2.openBatch ++ sampleStates.2.2.queue).map Event.gameId = ["c"] ∧
      sampleStates.2.2.openBatch ++ sampleStates.2.2.queue <:+ accepted sampleStates.2.1 := by
  have hsettings : config.violations quick = [] := by decide +kernel
  have hrun : sampleStates.1.2.isRunning = true := by decide +kernel
  have hleaves : LeavesInTime sampleStates.1 sampleStates.2.1 sampleStates.2.2 :=
    exec_punctual hsettings ⟨none, []⟩ .standard 0 sampleBefore sampleAfter hrun
  refine ⟨hsettings, hrun, ?_, ?_, ?_, hleaves.left ?_, ?_, hleaves.waiting ?_⟩
  all_goals decide +kernel

end Aggregator

end Ingress
