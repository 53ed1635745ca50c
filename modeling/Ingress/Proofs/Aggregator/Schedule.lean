import Ingress.Proofs.Aggregator.Invariant
import Ingress.Proofs.Aggregator.Sending
import Mathlib

/-!
# When handlers are given a batch

What is due of the deliveries is done in rounds. A batch is given to the batch handler in the first round
after it left its window, and to all delivery handlers in the first round in which the batch handler is
through, or at once where there is none.

* `Course` : a dispatched batch, its number, and the times of the rounds from then on;
* `Aggregator.courses` : the courses of the batches that leave along a run;
* `Course.begun`, `Course.ended` : when the batch handler is given the batch, and when it is through;
* `Paces handlers place due` : round by round, the handler of a place is given batches as `due` says;
* `Paces.exec` : so along a run it is given each batch once;
* `given_conclude`, `given_first_conclude` : the batches that a round of deliveries gives to the handler of a
  place;
* `DeliversOnce` : what that means for a run; `deliversOnce_fresh` : it holds from the first action on.
-/

namespace Ingress.Aggregator

variable {a b : Aggregator} {batches : List (List Event)}

/-! ## Rounds -/

/-- The times of the rounds of deliveries, when actions begin at a time. -/
def roundsFrom : Int → List Action → List Int
  | _, [] => []
  | now, .pass ms :: rest => roundsFrom (now + ms) rest
  | now, .conclude :: rest => now :: roundsFrom now rest
  | now, _ :: rest => roundsFrom now rest

/-- A dispatched batch: its number, and the times of the rounds of deliveries from then on. -/
structure Course where
  number : Nat
  batch : List Event
  rounds : List Int

/-- How long the batch handler takes for the batch of a number; no time where there is none. -/
def leadDelay (handlers : Handlers) (number : Nat) : Nat :=
  match handlers.batchHandler with
  | none => 0
  | some handler => (handler.respond number).delay

namespace Course

/-- When the batch handler is given the batch: in the first round. -/
def begun (c : Course) : Option Int := c.rounds.head?

/-- When the batch handler is through with the batch, or it turns out that there is none: in the first
round that is not too early, whatever the result. -/
def ended (handlers : Handlers) (c : Course) : Option Int :=
  match c.rounds with
  | [] => none
  | first :: _ => c.rounds.find? fun now => first + leadDelay handlers c.number ≤ now

end Course

/-- The courses of the batches that leave along a run, in order; batches are numbered from 1. -/
def courses (a : Aggregator) : List Action → List Course
  | [] => []
  | x :: rest =>
    let b := (a.act x).2
    let sent := b.ledger.dispatched.drop a.ledger.dispatched.length
    (sent.zipIdx (a.ledger.dispatched.length + 1)).map
      (fun s => ⟨s.2, s.1, roundsFrom b.clock rest⟩) ++ b.courses rest

/-! ## Jobs and rounds to come -/

/-- When the batch handler will be given the batch of a job, from its number, its stage and the rounds
to come. -/
def begins (_ : Nat) : Stage → List Int → Option Int
  | .dispatched, rounds => rounds.head?
  | _, _ => none

/-- When the batch handler will be through with the batch of a job. -/
def ends (handlers : Handlers) (number : Nat) : Stage → List Int → Option Int
  | .dispatched, rounds => (⟨number, [], rounds⟩ : Course).ended handlers
  | .leading d, rounds => rounds.find? fun now => d.due ≤ now
  | .led, rounds => rounds.head?
  | .spreading _, _ => none

/-- The batches of jobs with the times that `due` gives them. -/
def told (due : Nat → Stage → List Int → Option Int) (rounds : List Int) (jobs : List Job) :
    List (Int × List Event) :=
  jobs.filterMap fun j => (due j.number j.stage rounds).map fun time => (time, j.batch)

/-- In a round the batch handler is through with a batch, or will be as it was to be. -/
theorem ends_cons (handlers : Handlers) (j : Job) (l : Ledger) (rounds : List Int) :
    ends handlers j.number j.stage (l.clock :: rounds) =
      if (j.lead handlers l).1.isLed then some l.clock
      else ends handlers (j.lead handlers l).1.number (j.lead handlers l).1.stage rounds := by
  have hend : ∀ (i : Job) (d : Delivery) (m : Ledger), m.clock = l.clock →
      (l.clock :: rounds).find? (fun now => d.due ≤ now) =
        if (i.endLead d m).1.isLed then some l.clock
        else ends handlers (i.endLead d m).1.number (i.endLead d m).1.stage rounds := by
    intro i d m hm
    unfold Job.endLead Delivery.isDue
    rw [hm, List.find?_cons]
    by_cases hdue : d.due ≤ l.clock <;> simp [hdue, Job.isLed, ends]
  obtain ⟨number, run, batch, stage⟩ := j
  cases stage with
  | dispatched =>
    show (l.clock :: rounds).find? (fun now => l.clock + leadDelay handlers number ≤ now) = _
    unfold Job.lead
    dsimp only
    cases hfirst : handlers.batchHandler with
    | none =>
      have hdelay : leadDelay handlers number = 0 := by unfold leadDelay; rw [hfirst]
      simp [hdelay, Job.isLed]
    | some handler =>
      have hdelay : leadDelay handlers number = (handler.respond number).delay := by
        unfold leadDelay
        rw [hfirst]
      rw [hdelay]
      exact hend _ ⟨handler, l.clock, handler.respond number⟩ _ rfl
  | leading d => exact hend _ d l rfl
  | led => rfl
  | spreading ds => rfl

/-- The elements with a property are told apart from the others, up to the order. -/
theorem filterMap_perm_split {α β : Type} {p : α → Bool} {f : α → β} {g h : α → Option β}
    (hyes : ∀ x, p x = true → h x = some (f x)) (hno : ∀ x, p x = false → h x = g x) (xs : List α) :
    (xs.filterMap h).Perm ((xs.filter p).map f ++ (xs.filter fun x => !p x).filterMap g) := by
  have hsplit := ((List.filter_append_perm p xs).filterMap h).symm
  rw [List.filterMap_append] at hsplit
  refine hsplit.trans (.of_eq ?_)
  congr 1
  · rw [← List.filterMap_eq_map]
    exact List.filterMap_congr fun x hx => hyes x (List.mem_filter.1 hx).2
  · exact List.filterMap_congr fun x hx => hno x (by simpa using (List.mem_filter.1 hx).2)

/-- Along any rounds, the handler of a place is given the batches of jobs as `due` says. -/
structure Paces (handlers : Handlers) (place : Place) (due : Nat → Stage → List Int → Option Int) :
    Prop where
  never : ∀ number stage, due number stage [] = none
  round : ∀ (a : Aggregator) (rounds : List Int), a.handlers = handlers →
    (a.conclude.ledger.invocations place ++ told due rounds a.conclude.pending).Perm
      (a.ledger.invocations place ++ told due (a.clock :: rounds) a.pending)

theorem invocationsIn_flatMap (place : Place) (now : Int) (moved : Job → List Occurrence)
    (jobs : List Job) : Ledger.invocationsIn place ((jobs.flatMap moved).map (⟨now, ·⟩)) =
      jobs.flatMap fun j => Ledger.invocationsIn place ((moved j).map (⟨now, ·⟩)) := by
  unfold Ledger.invocationsIn
  rw [List.map_flatMap, List.filterMap_flatMap]

theorem invocations_conclude (a : Aggregator) (place : Place) :
    a.conclude.ledger.invocations place = a.ledger.invocations place ++
      ((a.pending.flatMap fun j =>
          Ledger.invocationsIn place ((j.firstMoves a.handlers).map (⟨a.clock, ·⟩))) ++
        a.attended.flatMap fun j => Ledger.invocationsIn place
          ((j.spreadMoves a.handlers.deliveryHandlers.length).map (⟨a.clock, ·⟩))) := by
  rw [Ledger.invocations_append (conclude_moves a).traffic, ← invocationsIn_flatMap,
    ← invocationsIn_flatMap, List.map_append]
  congr 1
  exact List.filterMap_append

theorem flatMap_ite {α β : Type} (p : α → Bool) (f : α → β) (xs : List α) :
    (xs.flatMap fun x => if p x then [f x] else []) = (xs.filter p).map f := by
  induction xs with
  | nil => rfl
  | cons x rest ih =>
    rw [List.flatMap_cons, List.filter_cons, ih]
    split <;> rfl

/-! ### The delivery handlers -/

theorem given_firstMoves (handlers : Handlers) (i : Nat) (now : Int) (j : Job) :
    Ledger.invocationsIn (.delivery i) ((j.firstMoves handlers).map (⟨now, ·⟩)) = [] := by
  unfold Job.firstMoves
  split
  · cases handlers.batchHandler <;> rfl
  · rfl

theorem filterMap_range_eq {β : Type} {i n : Nat} (hi : i < n) (x : β) :
    ((List.range n).filterMap fun k => if k = i then some x else none) = [x] := by
  induction n with
  | zero => exact absurd hi (Nat.not_lt_zero i)
  | succ n ih =>
    rw [List.range_succ, List.filterMap_append]
    rcases (Nat.lt_succ_iff.1 hi).lt_or_eq with hlt | rfl
    · rw [ih hlt]
      simp [hlt.ne']
    · rw [List.filterMap_eq_nil_iff.2 fun k hk => if_neg (List.mem_range.1 hk).ne]
      simp

theorem given_spreadMoves {i n : Nat} (hi : i < n) (now : Int) (j : Job) :
    Ledger.invocationsIn (.delivery i) ((j.spreadMoves n).map (⟨now, ·⟩)) =
      if j.isLed then [(now, j.batch)] else [] := by
  unfold Job.spreadMoves
  split
  · rw [← filterMap_range_eq hi (now, j.batch), List.map_map]
    unfold Ledger.invocationsIn
    rw [List.filterMap_map]
    simp
  · rfl

/-- In a round every delivery handler is given the batches that the batch handler is through with. -/
theorem given_conclude (a : Aggregator) {i : Nat} (hi : i < a.handlers.deliveryHandlers.length) :
    a.conclude.ledger.invocations (.delivery i) = a.ledger.invocations (.delivery i) ++
      (a.attended.filter Job.isLed).map fun j => (a.clock, j.batch) := by
  have hnone := List.flatMap_eq_nil_iff.2 fun j (_ : j ∈ a.pending) =>
    given_firstMoves a.handlers i a.clock j
  simp only [invocations_conclude, given_spreadMoves hi, flatMap_ite, hnone, List.nil_append]

/-- Every delivery handler is given a batch when the batch handler is through with it. -/
theorem paces_ends (handlers : Handlers) {i : Nat} (hi : i < handlers.deliveryHandlers.length) :
    Paces handlers (.delivery i) (ends handlers) := by
  refine ⟨fun number stage => by cases stage <;> rfl, ?_⟩
  rintro a rounds rfl
  have htold : told (ends a.handlers) (a.clock :: rounds) a.pending =
      a.attended.filterMap fun j => (if j.isLed then some a.clock
        else ends a.handlers j.number j.stage rounds).map fun time => (time, j.batch) := by
    unfold told attended
    rw [List.filterMap_map]
    refine List.filterMap_congr fun j _ => ?_
    show (ends a.handlers j.number j.stage (a.ledger.clock :: rounds)).map _ = _
    rw [ends_cons, Function.comp_apply, Job.batch_lead]
    rfl
  rw [given_conclude a hi, htold, pending_conclude, List.append_assoc]
  refine List.Perm.append_left _ (filterMap_perm_split ?_ ?_ _).symm
  · intro j hled
    rw [if_pos hled]
    rfl
  · intro j hled
    rw [if_neg (by simp [hled])]

/-! ### The batch handler -/

/-- The batch handler has yet to be given the batch. -/
def Job.isFresh (j : Job) : Bool :=
  match j.stage with
  | .dispatched => true
  | _ => false

theorem begins_cons (j : Job) (now : Int) (rounds : List Int) :
    begins j.number j.stage (now :: rounds) = if j.isFresh then some now else none := by
  obtain ⟨number, run, batch, stage⟩ := j
  cases stage <;> rfl

theorem begins_lead (handlers : Handlers) (j : Job) (l : Ledger) (rounds : List Int) :
    begins (j.lead handlers l).1.number (j.lead handlers l).1.stage rounds = none := by
  have hend : ∀ (i : Job) (d : Delivery) (m : Ledger),
      begins (i.endLead d m).1.number (i.endLead d m).1.stage rounds = none := by
    intro i d m
    unfold Job.endLead
    split <;> rfl
  obtain ⟨number, run, batch, stage⟩ := j
  cases stage with
  | dispatched =>
    unfold Job.lead
    dsimp only
    cases handlers.batchHandler with
    | none => rfl
    | some handler => exact hend _ _ _
  | leading d => exact hend _ d l
  | led => rfl
  | spreading ds => rfl

theorem given_first_firstMoves {handlers : Handlers} (hsome : handlers.batchHandler.isSome = true)
    (now : Int) (j : Job) : Ledger.invocationsIn .first ((j.firstMoves handlers).map (⟨now, ·⟩)) =
      if j.isFresh then [(now, j.batch)] else [] := by
  obtain ⟨handler, hfirst⟩ := Option.isSome_iff_exists.1 hsome
  obtain ⟨number, run, batch, stage⟩ := j
  unfold Job.firstMoves
  rw [hfirst]
  cases stage <;> rfl

theorem given_first_spreadMoves (n : Nat) (now : Int) (j : Job) :
    Ledger.invocationsIn .first ((j.spreadMoves n).map (⟨now, ·⟩)) = [] := by
  unfold Job.spreadMoves Ledger.invocationsIn
  split
  · rw [List.map_map, List.filterMap_map]
    exact List.filterMap_eq_nil_iff.2 fun _ _ => rfl
  · rfl

/-- In a round the batch handler is given the batches that it has yet to be given. -/
theorem given_first_conclude (a : Aggregator) (hsome : a.handlers.batchHandler.isSome = true) :
    a.conclude.ledger.invocations .first = a.ledger.invocations .first ++
      (a.pending.filter Job.isFresh).map fun j => (a.clock, j.batch) := by
  have hnone := List.flatMap_eq_nil_iff.2 fun j (_ : j ∈ a.attended) =>
    given_first_spreadMoves a.handlers.deliveryHandlers.length a.clock j
  simp only [invocations_conclude, given_first_firstMoves hsome, flatMap_ite, hnone, List.append_nil]

/-- The batch handler is given a batch in the first round after it left its window. -/
theorem paces_begins {handlers : Handlers} (hsome : handlers.batchHandler.isSome = true) :
    Paces handlers .first begins := by
  refine ⟨fun number stage => by cases stage <;> rfl, ?_⟩
  rintro a rounds rfl
  have hdone : told begins rounds a.conclude.pending = [] := by
    rw [pending_conclude]
    refine List.filterMap_eq_nil_iff.2 fun j hj => ?_
    obtain ⟨i, _, rfl⟩ := List.mem_map.1 (List.mem_filter.1 hj).1
    rw [begins_lead]
    rfl
  have htold : told begins (a.clock :: rounds) a.pending =
      (a.pending.filter Job.isFresh).map fun j => (a.clock, j.batch) := by
    unfold told
    rw [← List.filterMap_eq_map, List.filterMap_filter]
    refine List.filterMap_congr fun j _ => ?_
    rw [begins_cons]
    split <;> rfl
  rw [given_first_conclude a hsome, hdone, htold, List.append_nil]

/-! ### Runs -/

variable {handlers : Handlers} {place : Place} {due : Nat → Stage → List Int → Option Int}

/-- The batches of courses with the times that `due` gives them. -/
def toldCourses (due : Nat → Stage → List Int → Option Int) (courses : List Course) :
    List (Int × List Event) :=
  courses.filterMap fun c => (due c.number .dispatched c.rounds).map fun time => (time, c.batch)

theorem dispatched_conclude (a : Aggregator) :
    a.conclude.ledger.dispatched = a.ledger.dispatched :=
  (congrArg Ledger.dispatched (pending_endDrained a.deliver).2).trans (dispatched_deliver a)

theorem numbered_conclude (h : Numbered a) : Numbered a.conclude := by
  refine (sends_endDrained a.deliver).numbered ?_
  unfold Numbered
  rw [dispatched_deliver]
  exact h

theorem clock_act {x : Action} (hstop : x.isWholeStop = false) (hround : x.isRound = false)
    (rest : List Action) : roundsFrom a.clock (x :: rest) = roundsFrom (a.act x).2.clock rest := by
  cases x with
  | add e =>
    unfold act add
    dsimp only
    split <;> rfl
  | start =>
    unfold act start
    dsimp only
    split <;> rfl
  | stop => cases hstop
  | halt => exact congrArg (roundsFrom · rest) (clock_flush a).symm
  | pass ms => rfl
  | advance => exact congrArg (roundsFrom · rest) (stays_advance a).clock.symm
  | conclude => cases hround

/-- The batches that an action sends are under way, and their courses begin. -/
theorem told_sends (due : Nat → Stage → List Int → Option Int) (h : Sends a b batches)
    (ha : Numbered a) (rounds : List Int) : told due rounds b.pending =
      told due rounds a.pending ++ toldCourses due
        (((b.ledger.dispatched.drop a.ledger.dispatched.length).zipIdx
          (a.ledger.dispatched.length + 1)).map fun s => ⟨s.2, s.1, rounds⟩) := by
  unfold told toldCourses
  rw [h.pending, List.filterMap_append, h.dispatched, List.drop_left, ha]
  congr 1
  rw [List.filterMap_map, List.filterMap_map]
  rfl

/-- Nothing is given to a handler by letting batches leave. -/
theorem Sends.invocations (h : Sends a b batches) (place : Place) :
    b.ledger.invocations place = a.ledger.invocations place := by
  have hnone : Ledger.invocationsIn place
      (batches.map fun batch => ⟨a.clock, .dispatched batch⟩) = [] := by
    unfold Ledger.invocationsIn
    rw [List.filterMap_map]
    exact List.filterMap_eq_nil_iff.2 fun _ _ => rfl
  rw [Ledger.invocations_append h.traffic, hnone, List.append_nil]

/-- **Along a run, the handler of a place is given each batch once**, at the time that `due` gives. -/
theorem Paces.exec (h : Paces handlers place due) (xs : List Action) :
    ∀ a : Aggregator, a.handlers = handlers → Numbered a →
      (∀ x ∈ xs, x.isWholeStop = false) →
      ((a.exec xs).2.ledger.invocations place).Perm (a.ledger.invocations place ++
        (told due (roundsFrom a.clock xs) a.pending ++ toldCourses due (a.courses xs))) := by
  induction xs with
  | nil =>
    intro a _ _ _
    have hnone : told due [] a.pending = [] :=
      List.filterMap_eq_nil_iff.2 fun j _ => by rw [h.never]; rfl
    exact .of_eq (by rw [roundsFrom, hnone]; exact (List.append_nil _).symm)
  | cons x rest ih =>
    intro a hhandlers hnumbered hstops
    obtain ⟨hstop, hrest⟩ := List.forall_mem_cons.1 hstops
    have hgoes := ih (a.act x).2 ((handlers_act a x).trans hhandlers)
    cases hround : x.isRound with
    | false =>
      -- what leaves joins what is under way, with all the rounds to come
      obtain ⟨batches, hsends⟩ := sends_act a hstop hround
      refine (hgoes (hsends.numbered hnumbered) hrest).trans (.of_eq ?_)
      rw [hsends.invocations, told_sends due hsends hnumbered, clock_act hstop hround, List.append_assoc]
      congr 2
      exact List.filterMap_append.symm
    | true =>
      cases x with
      | conclude =>
        -- a round gives out what is due, and leaves the rest to the rounds after it
        have hcourses : a.courses (.conclude :: rest) = a.conclude.courses rest := by
          show ((a.conclude.ledger.dispatched.drop a.ledger.dispatched.length).zipIdx _).map _ ++ _ = _
          rw [dispatched_conclude, List.drop_length]
          rfl
        have hclock : (a.act .conclude).2.clock = a.clock := (stays_conclude a).clock
        refine (hgoes (numbered_conclude hnumbered) hrest).trans ?_
        rw [hcourses, ← List.append_assoc, ← List.append_assoc, roundsFrom, hclock]
        exact (h.round a _ hhandlers).append_right _
      | _ => cases hround

theorem dispatched_act (a : Aggregator) {x : Action} (hstop : x.isWholeStop = false) :
    ∃ batches, (a.act x).2.ledger.dispatched = a.ledger.dispatched ++ batches := by
  cases hround : x.isRound with
  | false =>
    obtain ⟨batches, hsends⟩ := sends_act a hstop hround
    exact ⟨batches, hsends.dispatched⟩
  | true =>
    cases x with
    | conclude => exact ⟨[], (dispatched_conclude a).trans (List.append_nil _).symm⟩
    | _ => cases hround

/-- Every batch that leaves along a run has its course. -/
theorem dispatched_exec (xs : List Action) : ∀ a : Aggregator, (∀ x ∈ xs, x.isWholeStop = false) →
    (a.exec xs).2.ledger.dispatched =
      a.ledger.dispatched ++ (a.courses xs).map Course.batch := by
  induction xs with
  | nil => exact fun a _ => (List.append_nil _).symm
  | cons x rest ih =>
    intro a hstops
    obtain ⟨hstop, hrest⟩ := List.forall_mem_cons.1 hstops
    obtain ⟨batches, hsent⟩ := dispatched_act a hstop
    have hcourses : (a.courses (x :: rest)).map Course.batch =
        batches ++ ((a.act x).2.courses rest).map Course.batch := by
      show List.map _ (List.map _ _ ++ _) = _
      rw [hsent, List.drop_left, List.map_append, List.map_map]
      congr 1
      exact List.zipIdx_map_fst _ _
    rw [exec_cons, ih _ hrest, hsent, hcourses, List.append_assoc]

theorem numbers_courses (xs : List Action) : ∀ a : Aggregator, (∀ x ∈ xs, x.isWholeStop = false) →
    (a.courses xs).map Course.number =
      List.range' (a.ledger.dispatched.length + 1) (a.courses xs).length := by
  induction xs with
  | nil => exact fun _ _ => rfl
  | cons x rest ih =>
    intro a hstops
    obtain ⟨hstop, hrest⟩ := List.forall_mem_cons.1 hstops
    obtain ⟨batches, hsent⟩ := dispatched_act a hstop
    have hmore := ih (a.act x).2 hrest
    show List.map _ (List.map _ _ ++ _) = List.range' _ (List.map _ _ ++ _).length
    rw [hsent, List.length_append] at hmore
    rw [hsent, List.drop_left, List.map_append, List.map_map, List.length_append, List.length_map,
      List.length_zipIdx, hmore, Nat.add_right_comm, ← List.range'_append_1]
    congr 1
    exact List.zipIdx_map_snd _ _

/-- Along a run of actions from `a`, every batch that leaves is numbered in order, and holds the accepted
events as they came; it is given to the batch handler once, in the first round from then on, and to every
delivery handler once, in the first round in which the batch handler is through with it. -/
structure DeliversOnce (a : Aggregator) (actions : List Action) : Prop where
  numbers : (a.courses actions).map Course.number = List.range' 1 (a.courses actions).length
  batches : (a.courses actions).map Course.batch = (a.exec actions).2.ledger.dispatched
  in_order : (a.exec actions).2.ledger.dispatched.flatten <+: accepted (a.exec actions).1
  led : a.handlers.batchHandler.isSome = true →
    ((a.exec actions).2.ledger.invocations .first).Perm
      ((a.courses actions).filterMap fun c => c.begun.map fun time => (time, c.batch))
  delivered : ∀ i < a.handlers.deliveryHandlers.length,
    ((a.exec actions).2.ledger.invocations (.delivery i)).Perm
      ((a.courses actions).filterMap fun c => (c.ended a.handlers).map fun time => (time, c.batch))

theorem deliversOnce_fresh (settings : Aggregator.Config) (handlers : Handlers)
    (metrics : Metrics.Config) (clock : Int) {actions : List Action}
    (hstops : ∀ x ∈ actions, x.isWholeStop = false) :
    DeliversOnce (fresh settings handlers metrics clock) actions := by
  have hbatches := dispatched_exec actions (fresh settings handlers metrics clock) hstops
  refine ⟨numbers_courses actions _ hstops, hbatches.symm, ?_, fun hsome => ?_, fun i hi => ?_⟩
  · have hcontents := contents_exec (fresh settings handlers metrics clock) actions
    exact ⟨_, (List.append_assoc _ _ _).symm.trans hcontents⟩
  · exact (paces_begins hsome).exec actions _ rfl rfl hstops
  · exact (paces_ends handlers hi).exec actions _ rfl rfl hstops

end Ingress.Aggregator
