import Ingress.Proofs.Aggregator.Invariant
import Ingress.Proofs.Aggregator.Sending
import Ingress.Proofs.Metrics.Counter
import Ingress.Proofs.Recent
import Mathlib

/-!
# Statistics of the dispatched batches

Of every dispatched batch a record is made, and only the last ones are retained. A run has a history of all
the records it made: one for each dispatched batch, in order, and nothing that happens later, a start or a
stop included, changes what has been recorded.

* `idOf_injective` : batches of different numbers have different ids;
* `Records capacity history a` : `history` has a record of each dispatched batch, and the statistics of `a`
  are its end;
* `Extends capacity a b` : what led from `a` to `b` has only added records;
* `extends_steppedBy`, `extends_conclude`, `extends_act` : so does every step, and every action;
* `records_exec` : the history of a run begins with that of each part from the beginning;
* `Mirrors`, `exec_mirrors` : what the statistics say at any point of a run.
-/

namespace Ingress

namespace Batch.Ring

theorem idOf_injective : Function.Injective idOf := by
  intro m n h
  have hdigits : (toString m).toList = (toString n).toList := by
    have htext := congrArg String.toList h
    unfold idOf at htext
    rw [String.toList_append, String.toList_append] at htext
    exact List.append_cancel_left htext
  exact Nat.repr_injective (String.toList_inj.1 hdigits)

end Batch.Ring

namespace Aggregator

open Metrics Batch

/-! ## What is recorded -/

/-- A history has a record of each dispatched batch, with the ids in order; the ring is its end, and the
counter says how long it is. -/
structure Records (capacity : Nat) (history : List Stats) (a : Aggregator) : Prop where
  ids : history.map Stats.id = (List.range' 1 a.ledger.dispatched.length).map Ring.idOf
  sizes : history.map Stats.events = a.ledger.dispatched.map List.length
  ring : a.stats = ⟨capacity, history.rtake capacity, a.ledger.dispatched.length⟩
  counter : a.ledger.metrics.counter Name.batches [] = a.ledger.dispatched.length % counterBound

/-- What led from `a` to `b` has only added records. -/
def Extends (capacity : Nat) (a b : Aggregator) : Prop :=
  ∀ history, Records capacity history a → ∃ more, Records capacity (history ++ more) b

variable {capacity : Nat} {history : List Stats} {a b : Aggregator}

theorem Records.length (h : Records capacity history a) : history.length = a.ledger.dispatched.length := by
  have hids := congrArg List.length h.ids
  rwa [List.length_map, List.length_map, List.length_range'] at hids

/-- What dispatches nothing, and writes nothing about batches. -/
theorem Extends.nothing (hstats : b.stats = a.stats)
    (hdispatched : b.ledger.dispatched = a.ledger.dispatched)
    (hcounter : b.ledger.metrics.counter Name.batches [] = a.ledger.metrics.counter Name.batches []) :
    Extends capacity a b := by
  intro history h
  refine ⟨[], ?_⟩
  rw [List.append_nil]
  exact ⟨hdispatched ▸ h.ids, hdispatched ▸ h.sizes, hstats.trans (hdispatched ▸ h.ring),
    hcounter.trans (hdispatched ▸ h.counter)⟩

theorem Extends.refl (a : Aggregator) : Extends capacity a a := .nothing rfl rfl rfl

theorem Extends.trans {c : Aggregator} (h : Extends capacity a b) (h' : Extends capacity b c) :
    Extends capacity a c := by
  intro history hrecords
  obtain ⟨more, hmore⟩ := h history hrecords
  obtain ⟨more', hmore'⟩ := h' _ hmore
  exact ⟨more ++ more', List.append_assoc history more more' ▸ hmore'⟩

/-! ## Dispatching -/

theorem counter_recordDispatch (a : Aggregator) (batch : List Event) (elapsed : Double) (l : Ledger) :
    (a.recordDispatch batch elapsed l).metrics.counter Name.batches [] =
      (l.metrics.counter Name.batches [] + 1) % counterBound := by
  have hcounted := l.metrics.counter_increment Name.batches [] 1 l.clock []
  rw [if_pos rfl] at hcounted
  unfold recordDispatch
  dsimp only
  split
  · exact (Collector.counter_increment_of_name_ne _ _ _ _ _ (by decide) []).trans hcounted
  · exact hcounted

/-- What is recorded of a batch that leaves. -/
def recordOf (a : Aggregator) (w : Window) : Stats :=
  ⟨Ring.idOf (a.stats.issued + 1), w.batch.length, a.ledger.elapsedSince w.opened, w.queued, .ofMillis a.clock⟩

/-- A batch that leaves is recorded with the next id and its size. -/
theorem Records.dispatch (hcapacity : 0 < capacity) (h : Records capacity history a) {w : Window}
    (hw : w.batch.isEmpty = false) : Records capacity (history ++ [a.recordOf w]) (a.dispatch w) := by
  have hissued : a.stats.issued = a.ledger.dispatched.length := congrArg Ring.issued h.ring
  have hid : (a.recordOf w).id = Ring.idOf (1 + a.ledger.dispatched.length) := by
    rw [← hissued, Nat.add_comm]
    rfl
  have hledger : (a.dispatch w).ledger =
      a.recordDispatch w.batch (a.ledger.elapsedSince w.opened) a.ledger := by
    simp [Aggregator.dispatch, hw]
  have hstats : (a.dispatch w).stats =
      { a.stats.record (a.recordOf w) with issued := a.stats.issued + 1 } := by
    simp [Aggregator.dispatch, hw]
    rfl
  have hdispatched : (a.dispatch w).ledger.dispatched = a.ledger.dispatched ++ [w.batch] := by
    rw [hledger]
    exact Ledger.dispatched_append (recordDispatch_moves a w.batch _ a.ledger).traffic
  have hlength : (a.dispatch w).ledger.dispatched.length = a.ledger.dispatched.length + 1 := by
    rw [hdispatched, List.length_append, List.length_singleton]
  refine ⟨?_, ?_, ?_, ?_⟩
  · rw [hlength, List.range'_1_concat, List.map_append, List.map_append, h.ids, List.map_singleton,
      List.map_singleton, hid]
  · rw [hdispatched, List.map_append, List.map_append, h.sizes]
    rfl
  · rw [hstats, hlength, hissued, ← replace_rtake hcapacity, h.ring]
    rfl
  · rw [hledger, counter_recordDispatch, h.counter, ← hledger, hlength, Nat.mod_add_mod]

theorem extends_dispatch (hcapacity : 0 < capacity) (a : Aggregator) (w : Window) :
    Extends capacity a (a.dispatch w) := by
  cases hw : w.batch.isEmpty with
  | true =>
    have hnothing : a.dispatch w = a := by simp [Aggregator.dispatch, hw]
    rw [hnothing]
    exact .refl a
  | false => exact fun history h => ⟨_, h.dispatch hcapacity hw⟩

theorem extends_steppedBy (hcapacity : 0 < capacity) : SteppedBy (Extends capacity) where
  refl := .refl
  trans := fun _ _ _ => .trans
  openWindow := fun _ _ => .nothing rfl rfl rfl
  dispatch := extends_dispatch hcapacity
  turn := fun _ _ _ _ _ => .nothing rfl rfl rfl
  log := fun a entry => .nothing rfl (Ledger.frame_log a.ledger entry).dispatched rfl

/-! ## Delivering -/

/-- Deliveries count no batch. -/
theorem counter_deliver (a : Aggregator) : a.deliver.ledger.metrics.counter Name.batches [] =
    a.ledger.metrics.counter Name.batches [] := by
  have hkept : KeptByDelivering (fun _ => True) fun l =>
      l.metrics.counter Name.batches [] = a.ledger.metrics.counter Name.batches [] :=
    { note := fun _ _ _ h => h
      increment := fun l name n labels hname h => by
        have hother : Name.batches ≠ name := by
          rintro rfl
          exact absurd hname (by decide)
        exact (l.metrics.counter_increment_of_name_ne name labels n l.clock hother []).trans h
      observe := fun _ _ _ _ h => h }
  exact (hkept.settleAll a.handlers (fun _ _ _ _ => trivial) rfl).2

theorem extends_conclude (hcapacity : 0 < capacity) (a : Aggregator) : Extends capacity a a.conclude := by
  have hdelivered : Extends capacity a a.deliver :=
    .nothing rfl (dispatched_deliver a) (counter_deliver a)
  exact hdelivered.trans ((extends_steppedBy hcapacity).endDrained a.deliver)

/-! ## Runs -/

theorem extends_add (a : Aggregator) (e : Event) : Extends capacity a (a.add e).2 := by
  unfold add
  split
  · exact .nothing rfl rfl rfl
  · exact .nothing rfl rfl (a.ledger.metrics.counter_increment_of_name_ne _ _ _ _ (by decide) [])

theorem extends_act (hcapacity : 0 < capacity) (a : Aggregator) (x : Action) :
    Extends capacity a (a.act x).2 := by
  have hsteps : SteppedBy (Extends capacity) := extends_steppedBy hcapacity
  have hkept : KeptByTime (Extends capacity a) :=
    { pass := fun _ _ h => h.trans (.nothing rfl rfl rfl)
      advance := fun b h => h.trans (hsteps.advance b)
      conclude := fun b h => h.trans (extends_conclude hcapacity b)
      halt := fun b h => h.trans (hsteps.flush b) }
  exact hkept.act (fun b e h => h.trans (extends_add b e)) (fun b h => h.trans (hsteps.start b)) a x
    (.refl a)

/-- The history of a run begins with that of each part from the beginning. -/
theorem records_exec (hcapacity : 0 < capacity) (actions : List Action) : ∀ a history,
    Records capacity history a → ∃ more, Records capacity (history ++ more) (a.exec actions).2 ∧
      ∀ xs, xs <+: actions →
        ∃ earlier, earlier <+: more ∧ Records capacity (history ++ earlier) (a.exec xs).2 := by
  induction actions with
  | nil =>
    intro a history h
    rw [← List.append_nil history] at h
    refine ⟨[], h, fun xs hxs => ⟨[], List.nil_prefix, ?_⟩⟩
    rw [List.prefix_nil.1 hxs]
    exact h
  | cons x rest ih =>
    intro a history h
    obtain ⟨first, hfirst⟩ := extends_act hcapacity a x history h
    obtain ⟨more, hall, hmore⟩ := ih _ _ hfirst
    refine ⟨first ++ more, List.append_assoc history first more ▸ hall, fun xs hxs => ?_⟩
    obtain rfl | ⟨ys, rfl, hys⟩ := List.prefix_cons_iff.1 hxs
    · refine ⟨[], List.nil_prefix, ?_⟩
      rw [List.append_nil]
      exact h
    · obtain ⟨earlier, hearlier, hrecords⟩ := hmore ys hys
      refine ⟨first ++ earlier, (List.prefix_append_right_inj first).2 hearlier, ?_⟩
      rw [← List.append_assoc]
      exact hrecords

/-! ## What the statistics say -/

/-- The number of batches that are retained: all of them, or as many as the settings say, at least one. -/
def retained (settings : Config) (a : Aggregator) : Nat :=
  min a.ledger.dispatched.length (max settings.statsHistory 1)

/-- The statistics mirror the dispatched batches: `counted` and `reported`, how many there are, as words;
`length`, `ids` and `sizes`, the last of them are retained, the oldest first, under the ids of their numbers;
`remembered`, and what is retained is of the one history of the run. -/
structure Mirrors (settings : Config) (history : List Stats) (a : Aggregator) : Prop where
  counted : a.ledger.metrics.counter Name.batches [] = a.ledger.dispatched.length % counterBound
  reported : a.summary.batchCount = a.ledger.dispatched.length % counterBound
  length : 1 ≤ settings.statsHistory →
    a.stats.recent.length = min a.ledger.dispatched.length settings.statsHistory
  ids : a.stats.recent.map Stats.id = (List.range' (a.ledger.dispatched.length + 1 - a.retained settings)
    (a.retained settings)).map Ring.idOf
  sizes : a.stats.recent.map Stats.events =
    (a.ledger.dispatched.rtake (a.retained settings)).map List.length
  remembered : a.stats.recent =
    (history.take a.ledger.dispatched.length).rtake (a.retained settings)

theorem records_fresh (settings : Config) (handlers : Handlers) (metrics : Metrics.Config) (clock : Int) :
    Records (max settings.statsHistory 1) [] (fresh settings handlers metrics clock) :=
  ⟨rfl, rfl, by rw [List.rtake_nil]; rfl, rfl⟩

/-- The number of ids is reported as a word, and when nothing has been dispatched it is zero anyway. -/
theorem Records.reported (hcapacity : 0 < capacity) (h : Records capacity history a) :
    a.summary.batchCount = a.ledger.dispatched.length % counterBound := by
  have hretained := length_rtake history capacity
  have hlength := h.length
  unfold summary Ring.summary
  rw [h.ring]
  dsimp only
  split
  · next hnone =>
    have hzero : a.ledger.dispatched.length = 0 := by omega
    rw [hzero]
    rfl
  · rfl

/-- The statistics are read off the records. -/
theorem Records.mirrors {settings : Config} (h : Records (max settings.statsHistory 1) history a)
    {whole : List Stats} (hwhole : history <+: whole) : Mirrors settings whole a := by
  have hrecent : a.stats.recent = history.rtake (a.retained settings) := by
    unfold retained
    rw [← h.length, rtake_min_length, h.ring]
  refine ⟨h.counter, h.reported (by omega), fun hsome => ?_, ?_, ?_, ?_⟩
  · rw [hrecent, length_rtake, h.length, retained]
    omega
  · have hbound : a.retained settings ≤ a.ledger.dispatched.length := Nat.min_le_left _ _
    rw [hrecent, map_rtake, h.ids, ← map_rtake, rtake_range' hbound]
  · rw [hrecent, map_rtake, h.sizes, ← map_rtake]
  · rw [hrecent, ← h.length, ← List.prefix_iff_eq_take.1 hwhole]

/-- **The statistics mirror the dispatched batches** at every point of every run, and no id is given twice. -/
theorem exec_mirrors (settings : Config) (handlers : Handlers) (metrics : Metrics.Config) (clock : Int)
    (actions : List Action) : ∃ history : List Stats, (history.map Stats.id).Nodup ∧
      ∀ n, Mirrors settings history
        ((fresh settings handlers metrics clock).exec (actions.take n)).2 := by
  have hcapacity : 0 < max settings.statsHistory 1 := by omega
  obtain ⟨history, hall, hparts⟩ := records_exec hcapacity actions _ _
    (records_fresh settings handlers metrics clock)
  refine ⟨history, ?_, fun n => ?_⟩
  · rw [← List.nil_append history, hall.ids]
    exact List.Nodup.map Ring.idOf_injective (List.nodup_range' 1)
  · obtain ⟨earlier, hearlier, hrecords⟩ := hparts _ (List.take_prefix n actions)
    exact hrecords.mirrors hearlier

/-- Two batches before a stop and one after it, of which two are retained. -/
example : (((fresh { Config.standard with maxBatchSize := 2, statsHistory := 2 } ⟨none, []⟩ .standard 0).exec
    [offer "a", .start, offer "b", offer "c", .advance, .stop, .start, offer "d", .stop]).2.stats.recent.map
      fun s => (s.id, s.events)) = [("batch_2", 1), ("batch_3", 1)] := by
  decide +kernel

end Aggregator

end Ingress
