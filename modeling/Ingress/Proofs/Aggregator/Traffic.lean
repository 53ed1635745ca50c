import Ingress.Proofs.Aggregator.Steps
import Ingress.Proofs.Ledger
import Mathlib

/-!
# What the steps of the aggregator move

Each step has its own traffic. What a round of deliveries gives to handlers, and which jobs are left
waiting, depends on nothing that a delivery handler does.

* `Job.isPending` : the delivery handlers have yet to be given the batch;
* `Job.lead_moves`, `Job.spread_moves` : what the two steps of a job move;
* `Job.settleAll_moves`, `Job.pending_settleAll` : a round of deliveries;
* `recordDispatch_moves`, `conclude_moves`, `pending_conclude` : the aggregator.
-/

namespace Ingress

namespace Aggregator

open Ledger (Moves)

/-! ## Deliveries -/

theorem Delivery.finish_moves (d : Delivery) (batch : List Event) (l : Ledger) :
    Moves l (d.finish batch l) [] := by
  have htaken := Moves.sink d.handler.sink d.handler.name batch l
  unfold finish
  dsimp only
  split
  · exact (htaken.still (.increment _ _ _ _)).still (.observe _ _ _ _)
  · exact ((htaken.still (.increment _ _ _ _)).still (.observe _ _ _ _)).still (.increment _ _ _ _)

namespace Job

/-- The batch handler has ended, and the delivery handlers are to be given the batch. -/
def isLed (j : Job) : Bool :=
  match j.stage with
  | .led => true
  | _ => false

/-- The delivery handlers have yet to be given the batch. -/
def isPending (j : Job) : Bool :=
  match j.stage with
  | .spreading _ => false
  | _ => true

/-- What the first step of a job moves: the batch handler is given the batch. -/
def firstMoves (handlers : Handlers) (j : Job) : List Occurrence :=
  match j.stage with
  | .dispatched => (handlers.batchHandler.map fun _ => .invoked .first j.batch).toList
  | _ => []

/-- What the second step of a job moves: `n` delivery handlers are given the batch. -/
def spreadMoves (n : Nat) (j : Job) : List Occurrence :=
  if j.isLed then (List.range n).map fun i => .invoked (.delivery i) j.batch else []

theorem invoke_moves (j : Job) (place : Place) (handler : Handler) (l : Ledger) :
    Moves l (j.invoke place handler l).2 [.invoked place j.batch] := .note_moving l rfl

theorem endLead_moves (j : Job) (d : Delivery) (l : Ledger) : Moves l (j.endLead d l).2 [] := by
  unfold endLead
  split
  · exact d.finish_moves j.batch l
  · exact .refl l

theorem lead_moves (handlers : Handlers) (j : Job) (l : Ledger) :
    Moves l (j.lead handlers l).2 (j.firstMoves handlers) := by
  obtain ⟨number, run, batch, stage⟩ := j
  cases stage with
  | dispatched =>
    unfold lead firstMoves
    dsimp only
    cases handlers.batchHandler with
    | none => exact .refl l
    | some handler => exact (invoke_moves _ .first handler l).still (endLead_moves _ _ _)
  | leading d => exact endLead_moves _ d l
  | led => exact .refl l
  | spreading ds => exact .refl l

theorem invokeAll_moves (j : Job) (handlers : List Handler) : ∀ (index : Nat) (l : Ledger),
    Moves l (j.invokeAll index handlers l).2
      ((List.range' index handlers.length).map fun i => .invoked (.delivery i) j.batch) := by
  induction handlers with
  | nil => exact fun _ l => .refl l
  | cons handler rest ih =>
    exact fun index l => (j.invoke_moves (.delivery index) handler l).trans (ih (index + 1) _)

theorem endDue_moves (j : Job) (ds : List Delivery) :
    ∀ l : Ledger, Moves l (j.endDue ds l).2 [] := by
  induction ds with
  | nil => exact .refl
  | cons d rest ih =>
    intro l
    unfold endDue
    split
    · exact (d.finish_moves j.batch l).still (ih _)
    · exact ih l

theorem spread_moves (handlers : Handlers) (j : Job) (l : Ledger) :
    Moves l (j.spread handlers l).2 (j.spreadMoves handlers.deliveryHandlers.length) := by
  obtain ⟨number, run, batch, stage⟩ := j
  cases stage with
  | led =>
    have hall := invokeAll_moves ⟨number, run, batch, .led⟩ handlers.deliveryHandlers 0 l
    rw [← List.range_eq_range'] at hall
    exact hall.still (endDue_moves _ _ _)
  | spreading ds => exact endDue_moves _ ds l
  | dispatched => exact .refl l
  | leading d => exact .refl l

/-! ### Rounds -/

theorem stepAll_moves {step : Job → Ledger → Job × Ledger} {moved : Job → List Occurrence}
    (hstep : ∀ j l, Moves l (step j l).2 (moved j)) (jobs : List Job) :
    ∀ l : Ledger, Moves l (stepAll step jobs l).2 (jobs.flatMap moved) := by
  induction jobs with
  | nil => exact .refl
  | cons j rest ih => exact fun l => (hstep j l).trans (ih _)

/-- Where what a step makes of a job depends on the time alone, so does what all steps make. -/
theorem fst_stepAll {step : Job → Ledger → Job × Ledger}
    (hclock : ∀ j l, (step j l).2.clock = l.clock)
    (hsame : ∀ j l l', l'.clock = l.clock → (step j l').1 = (step j l).1) (jobs : List Job) (l : Ledger) :
    ∀ l' : Ledger, l'.clock = l.clock →
      (stepAll step jobs l').1 = jobs.map fun j => (step j l).1 := by
  induction jobs with
  | nil => exact fun _ _ => rfl
  | cons j rest ih =>
    intro l' h
    show (step j l').1 :: (stepAll step rest (step j l').2).1 = _
    rw [hsame j l l' h, ih _ ((hclock j l').trans h)]
    rfl

theorem fst_lead_congr {handlers handlers' : Handlers}
    (hfirst : handlers'.batchHandler = handlers.batchHandler) (j : Job) {l l' : Ledger}
    (h : l'.clock = l.clock) : (j.lead handlers' l').1 = (j.lead handlers l).1 := by
  have hend : ∀ (d : Delivery) (m m' : Ledger), m'.clock = m.clock →
      (j.endLead d m').1 = (j.endLead d m).1 := by
    intro d m m' hm
    unfold endLead
    rw [hm]
    split <;> rfl
  unfold lead
  rw [hfirst]
  split
  · split
    · rfl
    · next handler _ =>
      unfold invoke
      dsimp only
      rw [h]
      exact hend _ _ _ h
  · exact hend _ _ _ h
  · rfl

theorem isPending_lead (handlers : Handlers) (j : Job) (l : Ledger) :
    (j.lead handlers l).1.isPending = j.isPending := by
  have hend : ∀ (i : Job) (d : Delivery) (m : Ledger), (i.endLead d m).1.isPending = true := by
    intro i d m
    unfold endLead
    split <;> rfl
  obtain ⟨number, run, batch, stage⟩ := j
  cases stage with
  | dispatched =>
    unfold lead
    dsimp only
    cases handlers.batchHandler with
    | none => rfl
    | some handler => exact hend _ _ _
  | leading d => exact hend _ _ _
  | led => rfl
  | spreading ds => rfl

/-- The second step is over for a job whose batch handler has ended, and leaves the others. -/
theorem pending_spread (handlers : Handlers) (j : Job) (l : Ledger) :
    ((j.spread handlers l).1.isPending = true → (j.spread handlers l).1 = j) ∧
      (j.spread handlers l).1.isPending = (j.isPending && !j.isLed) := by
  obtain ⟨number, run, batch, stage⟩ := j
  cases stage with
  | led => exact ⟨fun h => (by cases h), rfl⟩
  | spreading ds => exact ⟨fun h => (by cases h), rfl⟩
  | dispatched => exact ⟨fun _ => rfl, rfl⟩
  | leading d => exact ⟨fun _ => rfl, rfl⟩

theorem pending_stepAll_spread (handlers : Handlers) (jobs : List Job) : ∀ l : Ledger,
    (stepAll (spread handlers) jobs l).1.filter isPending =
      jobs.filter fun j => j.isPending && !j.isLed := by
  induction jobs with
  | nil => exact fun _ => rfl
  | cons j rest ih =>
    intro l
    obtain ⟨hsame, hpending⟩ := pending_spread handlers j l
    show ((j.spread handlers l).1 :: (stepAll (spread handlers) rest _).1).filter isPending = _
    rw [List.filter_cons, List.filter_cons, ih, hpending]
    split
    · next h => rw [hsame (hpending.trans h)]
    · rfl

variable (handlers : Handlers) (jobs : List Job) (l : Ledger)

theorem fst_stepAll_lead : (stepAll (lead handlers) jobs l).1 =
    jobs.map fun j => (j.lead handlers l).1 :=
  fst_stepAll (fun j m => (j.lead_moves handlers m).clock)
    (fun j _ _ h => fst_lead_congr rfl j h) jobs l l rfl

/-- What a round of deliveries leaves: jobs whose batch handler has not ended. -/
theorem pending_settleAll : (settleAll handlers jobs l).1.filter isPending =
    ((jobs.filter isPending).map fun j => (j.lead handlers l).1).filter fun j => !j.isLed := by
  have hfinished : ∀ j : Job, (j.isPending && !j.isFinished) = j.isPending := by
    rintro ⟨number, run, batch, stage⟩
    cases stage <;> simp [isPending, isFinished]
  -- the finished jobs that a round drops are none of those that wait
  show (((stepAll (spread handlers) _ _).1).filter fun j => !j.isFinished).filter isPending = _
  rw [List.filter_filter, List.filter_congr fun j _ => hfinished j, pending_stepAll_spread,
    fst_stepAll_lead, List.filter_map, List.filter_map, List.filter_filter]
  congr 1
  refine List.filter_congr fun j _ => ?_
  rw [Function.comp_apply, Function.comp_apply, isPending_lead, Bool.and_comm]

theorem flatMap_pending {moved : Job → List Occurrence}
    (h : ∀ j : Job, j.isPending = false → moved j = []) :
    (jobs.filter isPending).flatMap moved = jobs.flatMap moved := by
  induction jobs with
  | nil => rfl
  | cons j rest ih =>
    rw [List.filter_cons, List.flatMap_cons]
    split
    · rw [List.flatMap_cons, ih]
    · next hstill => rw [ih, h j (by simpa using hstill), List.nil_append]

/-- What a round of deliveries moves: first the batches that batch handlers are given, then those
that the delivery handlers are given. -/
theorem settleAll_moves : Moves l (settleAll handlers jobs l).2
    ((jobs.filter isPending).flatMap (firstMoves handlers) ++
      ((jobs.filter isPending).map fun j => (j.lead handlers l).1).flatMap
        (spreadMoves handlers.deliveryHandlers.length)) := by
  have hfirst : (jobs.filter isPending).flatMap (firstMoves handlers) =
      jobs.flatMap (firstMoves handlers) := flatMap_pending _ fun ⟨_, _, _, stage⟩ h => by
    cases stage <;> first | rfl | cases h
  have hspread : ((jobs.filter isPending).map fun j => (j.lead handlers l).1).flatMap
        (spreadMoves handlers.deliveryHandlers.length) =
      (stepAll (lead handlers) jobs l).1.flatMap
        (spreadMoves handlers.deliveryHandlers.length) := by
    rw [fst_stepAll_lead, List.flatMap_map, List.flatMap_map]
    refine flatMap_pending _ fun ⟨_, _, _, stage⟩ h => ?_
    cases stage <;> first | rfl | cases h
  rw [hfirst, hspread]
  exact (stepAll_moves (lead_moves handlers) jobs l).trans
    (stepAll_moves (spread_moves handlers) _ _)

end Job

/-! ## The aggregator -/

/-- The jobs whose delivery handlers have yet to be given the batch. -/
def pending (a : Aggregator) : List Job := a.jobs.filter Job.isPending

/-- What a round of deliveries makes of the jobs that wait for it. -/
def attended (a : Aggregator) : List Job := a.pending.map fun j => (j.lead a.handlers a.ledger).1

theorem recordDispatch_moves (a : Aggregator) (batch : List Event) (elapsed : Double) (l : Ledger) :
    Moves l (a.recordDispatch batch elapsed l) [.dispatched batch] := by
  have hnoted : Moves l (l.note (.dispatched batch)) [.dispatched batch] := .note_moving l rfl
  have hcounted := ((hnoted.still (.increment _ Metrics.Name.batches 1 [])).still
    (.observe _ Metrics.Name.batchSize (.ofNat batch.length) [])).still
    (.observe _ Metrics.Name.batchMs elapsed [])
  unfold recordDispatch
  dsimp only
  split
  · exact (hcounted.still (.increment _ _ _ _)).still (.log _ _)
  · exact hcounted

theorem pending_endDrained (a : Aggregator) :
    a.endDrained.pending = a.pending ∧ a.endDrained.ledger = a.ledger := by
  obtain heq | ⟨-, -, heq⟩ := endDrained_cases a <;> rw [heq] <;> exact ⟨rfl, rfl⟩

theorem pending_deliver (a : Aggregator) :
    a.deliver.pending = a.attended.filter fun j => !j.isLed :=
  Job.pending_settleAll a.handlers a.jobs a.ledger

theorem deliver_moves (a : Aggregator) : Moves a.ledger a.deliver.ledger
    (a.pending.flatMap (Job.firstMoves a.handlers) ++
      a.attended.flatMap (Job.spreadMoves a.handlers.deliveryHandlers.length)) :=
  Job.settleAll_moves a.handlers a.jobs a.ledger

theorem pending_conclude (a : Aggregator) :
    a.conclude.pending = a.attended.filter fun j => !j.isLed :=
  (pending_endDrained a.deliver).1.trans (pending_deliver a)

theorem conclude_moves (a : Aggregator) : Moves a.ledger a.conclude.ledger
    (a.pending.flatMap (Job.firstMoves a.handlers) ++
      a.attended.flatMap (Job.spreadMoves a.handlers.deliveryHandlers.length)) := by
  unfold conclude
  rw [(pending_endDrained a.deliver).2]
  exact deliver_moves a

end Aggregator

end Ingress
