import Ingress.Proofs.Gateway.Reading
import Ingress.Proofs.Pipeline.Separation
import Mathlib

/-!
# Clients of a gateway are separate

A run is compared with the same run without the messages of one client, everything else happening at the
same instants. The clients share the rate limiter, the reaper of idle clients, the queue, the batches and
the ledger.

* `Reaped` : idle clients are forgotten a number of times; `reaped_perform`, `reaped_runTasks` : what tasks
  do; `advances_advance` : everything that is due, in whatever order the collector and the tasks come;
* `Apart` : two gateways are alike but for one client; `Apart.advance`, `Apart.proceed`, ... : what happens
  in both keeps them so; `Apart.move_left` : so does a message of the client in the first alone;
* `neverFull`, `startsAlike` : what is asked of the runs;
* `play_separates` : the other clients do not notice; `restart_notices` : they may where a start comes while
  a stop waits in one of the runs.

A stop is compared as its beginning, `Background.halt`, and the time that passes while it waits: a stop that
waits for a batch of the client would end later than one that does not. A start that comes while a stop
waits does nothing, and how long a stop waits is up to the handlers and to when its batches left; so each
start is to find a stop waiting in both runs or in neither. It is not enough that every stop of the first run
is awaited before the next start: without the client a batch may fill up later, and be delivered later.
-/

namespace Ingress.Gateway

/-! ## What tasks do to the rate limiter -/

/-- How often the rate limiter is told to forget idle clients by tasks that do what is due. -/
def reaps (tasks : List Task) (now : Int) : Nat :=
  (tasks.map fun t => if t.duty = .reap then t.passes now else 0).sum

/-- From `g` to `g'` idle clients are forgotten so many times, and nothing else changes that shows. -/
structure Reaped (times : Nat) (g g' : Gateway) : Prop where
  limits : g'.pipeline.limits = g.pipeline.limits
  limiter : g'.pipeline.limiter = (fun l => (l.cleanup g.clock).2)^[times] g.pipeline.limiter
  view : g'.aggregator.view = g.aggregator.view
  tasks : g'.tasks = g.tasks

theorem Reaped.refl (g : Gateway) : Reaped 0 g g := ⟨rfl, rfl, rfl, rfl⟩

theorem Reaped.clock {times : Nat} {g g' : Gateway} (h : Reaped times g g') : g'.clock = g.clock :=
  congrArg View.clock h.view

theorem Reaped.trans {times more : Nat} {g g' g'' : Gateway} (h : Reaped times g g')
    (h' : Reaped more g' g'') : Reaped (times + more) g g'' := by
  refine ⟨h'.limits.trans h.limits, ?_, h'.view.trans h.view, h'.tasks.trans h.tasks⟩
  rw [h'.limiter, h.limiter, h.clock, Nat.add_comm, Function.iterate_add_apply]

theorem reaped_perform (g : Gateway) (duty : Duty) :
    Reaped (if duty = .reap then 1 else 0) g (g.perform duty) := by
  have hlog (a : Aggregator) (entry : Log.Entry) : (a.write fun l => l.log entry).view = a.view :=
    Aggregator.view_write rfl (Ledger.frame_log _ _).dispatched
  cases duty with
  | report =>
    exact ⟨rfl, rfl, hlog g.aggregator _, rfl⟩
  | reap =>
    have hgauge : (g.aggregator.write fun l => l.setGauge Metrics.Name.limiterClients
        (g.pipeline.limiter.cleanup g.clock).2.count).view = g.aggregator.view :=
      Aggregator.view_write rfl rfl
    refine ⟨rfl, rfl, ?_, rfl⟩
    show g.reap.aggregator.view = _
    unfold reap
    dsimp only
    split
    · exact hgauge
    · exact (hlog _ _).trans hgauge

theorem reaped_performTimes (duty : Duty) (n : Nat) : ∀ g : Gateway,
    Reaped (if duty = .reap then n else 0) g (performTimes duty n g) := by
  induction n with
  | zero =>
    intro g
    rw [ite_self]
    exact .refl g
  | succ n ih =>
    intro g
    have hall := (g.reaped_perform duty).trans (ih (g.perform duty))
    have htimes : (if duty = .reap then n + 1 else 0) =
        (if duty = .reap then 1 else 0) + if duty = .reap then n else 0 := by
      split <;> omega
    rw [htimes]
    exact hall

theorem reaped_runTasks (tasks : List Task) : ∀ g : Gateway,
    Reaped (reaps tasks g.clock) g (runTasks tasks g) := by
  induction tasks with
  | nil => exact fun g => .refl g
  | cons t rest ih =>
    intro g
    have hfirst := reaped_performTimes t.duty (t.passes g.clock) g
    have hrest := ih (performTimes t.duty (t.passes g.clock) g)
    rw [hfirst.clock] at hrest
    exact hfirst.trans hrest

theorem reaps_perm {xs ys : List Task} (h : xs.Perm ys) (now : Int) : reaps xs now = reaps ys now :=
  (h.map _).sum_eq

theorem reaps_append (xs ys : List Task) (now : Int) :
    reaps (xs ++ ys) now = reaps xs now + reaps ys now := by
  unfold reaps
  rw [List.map_append, List.sum_append]

/-- What is due is done: the tasks come ahead of the collector or behind it, with the same result. -/
structure Advances (g g' : Gateway) : Prop where
  limits : g'.pipeline.limits = g.pipeline.limits
  limiter : g'.pipeline.limiter =
    (fun l => (l.cleanup g.clock).2)^[reaps g.tasks g.clock] g.pipeline.limiter
  view : g'.aggregator.view = g.aggregator.view.advanced
  tasks : g'.tasks = g.tasks.map fun t => t.rescheduled g.clock

theorem advances_advance (g : Gateway) : Advances g g.advance := by
  have hsplit : (g.tasks.mergeSort Task.le).partition g.isAhead =
      ((g.tasks.mergeSort Task.le).filter g.isAhead,
        (g.tasks.mergeSort Task.le).filter fun t => !g.isAhead t) := List.partition_eq_filter_filter
  have hearly := reaped_runTasks ((g.tasks.mergeSort Task.le).filter g.isAhead) g
  generalize hg₁ : runTasks ((g.tasks.mergeSort Task.le).filter g.isAhead) g = g₁ at hearly
  have hview : (g₁.onAggregator .advance).aggregator.view = g.aggregator.view.advanced :=
    (Aggregator.view_advance g₁.aggregator).trans (congrArg View.advanced hearly.view)
  have hclock : (g₁.onAggregator .advance).clock = g.clock := congrArg View.clock hview
  have hlate := reaped_runTasks ((g.tasks.mergeSort Task.le).filter fun t => !g.isAhead t)
    (g₁.onAggregator .advance)
  -- the order of the tasks does not count, only how often idle clients are forgotten at this instant
  have hreaps : reaps ((g.tasks.mergeSort Task.le).filter fun t => !g.isAhead t) g.clock +
      reaps ((g.tasks.mergeSort Task.le).filter g.isAhead) g.clock = reaps g.tasks g.clock := by
    rw [Nat.add_comm, ← reaps_append]
    exact reaps_perm ((List.filter_append_perm _ _).trans (List.mergeSort_perm _ _)) _
  unfold advance
  rw [hsplit]
  dsimp only
  rw [hg₁]
  refine ⟨hlate.limits.trans hearly.limits, ?_, hlate.view.trans hview, ?_⟩
  · rw [← hreaps, Function.iterate_add_apply, ← hearly.limiter, ← hclock]
    exact hlate.limiter
  · exact congrArg (List.map _) (hlate.tasks.trans hearly.tasks)

/-! ## Two gateways -/

/-- The gateways are alike but for a client: the second has had none of its events. -/
structure Apart (id : String) (g g' : Gateway) : Prop where
  pipeline : Pipeline.Apart id g.pipeline g'.pipeline
  tasks : g'.tasks = g.tasks

namespace Apart

variable {id : String} {g g' : Gateway}

theorem clock (h : Apart id g g') : g'.clock = g.clock := h.pipeline.clock

theorem limiter_iterate {l l' : RateLimit.Limiter} (h : RateLimit.Limiter.AgreeOff id l l')
    (now : Int) (n : Nat) : RateLimit.Limiter.AgreeOff id
      ((fun l => (l.cleanup now).2)^[n] l) ((fun l => (l.cleanup now).2)^[n] l') := by
  induction n with
  | zero => exact h
  | succ n ih =>
    rw [Function.iterate_succ_apply', Function.iterate_succ_apply']
    exact ih.cleanup now

theorem reaped (h : Apart id g g') {times : Nat} {f f' : Gateway} (hf : Reaped times g f)
    (hf' : Reaped times g' f') : Apart id f f' := by
  refine ⟨⟨hf'.limits.trans (h.pipeline.limits.trans hf.limits.symm), ?_, ?_⟩,
    hf'.tasks.trans (h.tasks.trans hf.tasks.symm)⟩
  · rw [hf.limiter, hf'.limiter, h.clock]
    exact limiter_iterate h.pipeline.limiter g.clock times
  · exact hf'.view.trans (h.pipeline.view.trans (congrArg (View.sieve · _) hf.view.symm))

theorem advance (h : Apart id g g') : Apart id g.advance g'.advance := by
  have hg := g.advances_advance
  have hg' := g'.advances_advance
  refine ⟨⟨hg'.limits.trans (h.pipeline.limits.trans hg.limits.symm), ?_, ?_⟩, ?_⟩
  · rw [hg.limiter, hg'.limiter, h.clock, h.tasks]
    exact limiter_iterate h.pipeline.limiter g.clock _
  · refine hg'.view.trans ?_
    rw [show g'.aggregator.view = _ from h.pipeline.view, ← View.sieve_advanced]
    exact congrArg (View.sieve · _) hg.view.symm
  · rw [hg.tasks, hg'.tasks, h.clock, h.tasks]

/-- A start finds the same in both: the collector runs, or a stop waits, or neither. -/
theorem start (h : Apart id g g')
    (hwaits : g'.aggregator.drainDeadline?.isSome = g.aggregator.drainDeadline?.isSome) :
    Apart id g.startBatching g'.startBatching := by
  refine ⟨⟨h.pipeline.limits, h.pipeline.limiter, ?_⟩, h.tasks⟩
  show g'.aggregator.start.view = g.aggregator.start.view.sieve _
  have hview : g'.aggregator.view = g.aggregator.view.sieve _ := h.pipeline.view
  have hrun : g'.aggregator.isRunning = g.aggregator.isRunning := congrArg View.running hview
  rw [Aggregator.view_start, Aggregator.view_start, hrun, hwaits]
  split
  · exact hview
  · rw [hview]
    rfl

/-- What happens in the background of both keeps them apart, but for a whole stop. -/
theorem proceed (h : Apart id g g') {b : Background} (hstop : b ≠ .stop)
    (hstart : b = .start →
      g'.aggregator.drainDeadline?.isSome = g.aggregator.drainDeadline?.isSome) :
    Apart id (g.proceed b) (g'.proceed b) := by
  have hview : g'.aggregator.view = g.aggregator.view.sieve _ := h.pipeline.view
  cases b with
  | spawn t => exact ⟨h.pipeline, congrArg (· ++ [t]) h.tasks⟩
  | perform duty => exact h.reaped (g.reaped_perform duty) (g'.reaped_perform duty)
  | start => exact h.start (hstart rfl)
  | stop => exact absurd rfl hstop
  | halt =>
    refine ⟨⟨h.pipeline.limits, h.pipeline.limiter, ?_⟩, h.tasks⟩
    show g'.aggregator.flush.view = g.aggregator.flush.view.sieve _
    rw [Aggregator.view_flush, Aggregator.view_flush, View.sieve_halted, hview]
  | pass ms =>
    refine ⟨⟨h.pipeline.limits, h.pipeline.limiter, ?_⟩, h.tasks⟩
    show (g'.aggregator.pass ms).view = (g.aggregator.pass ms).view.sieve _
    rw [Aggregator.view_pass, Aggregator.view_pass, hview]
    rfl
  | advance => exact h.advance
  | conclude =>
    refine ⟨⟨h.pipeline.limits, h.pipeline.limiter, ?_⟩, h.tasks⟩
    show g'.aggregator.conclude.view = g.aggregator.conclude.view.sieve _
    rw [Aggregator.view_conclude, Aggregator.view_conclude, hview]

end Apart

/-! ## Runs without a client -/

namespace Move

def isFrom (id : String) : Move → Bool
  | .act (.message client _) => client == id
  | .act (.binary client _) => client == id
  | _ => false

def isStart : Move → Bool
  | .act (.background .start) => true
  | _ => false

/-- Whether a move is a whole stop, which takes as long as it takes. -/
def isWholeStop : Move → Bool
  | .act (.background .stop) => true
  | _ => false

end Move

def without (id : String) (moves : List Move) : List Move := moves.filter fun x => !x.isFrom id

/-- No event is refused because the queue is full: at any time at which a message is refused for the queue,
the aggregator is stopped. -/
def neverFull (g : Gateway) : List Move → Bool
  | [] => true
  | x :: rest =>
    ((g.move x).1.all fun y =>
        y.outcome.rejection? != some .queueFull || !g.aggregator.accepting) &&
      (g.move x).2.neverFull rest

/-- Each start finds a stop waiting in the run from `g` if and only if it does in the run from `g'` without
the messages of the client. -/
def startsAlike (id : String) (g g' : Gateway) : List Move → Bool
  | [] => true
  | x :: rest =>
    if x.isFrom id then startsAlike id (g.move x).2 g' rest
    else
      (!x.isStart ||
          g'.aggregator.drainDeadline?.isSome == g.aggregator.drainDeadline?.isSome) &&
        startsAlike id (g.move x).2 (g'.move x).2 rest

namespace Apart

variable {id : String} {g g' : Gateway} {x : Move}

/-- A message of the client in the first gateway alone. -/
theorem move_left (h : Apart id g g') (hx : x.isFrom id = true) :
    Apart id (g.move x).2 g' ∧ ∀ y ∈ (g.move x).1, y.client = id := by
  cases x with
  | ask request reads => cases hx
  | act x =>
    cases x with
    | background b => cases hx
    | message client text =>
      obtain rfl : client = id := eq_of_beq hx
      exact ⟨⟨h.pipeline.left (Pipeline.message_answers_text g.pipeline client text)
        (Pipeline.message_charges g.pipeline client text), h.tasks⟩, List.forall_mem_singleton.2 rfl⟩
    | binary client bytes =>
      obtain rfl : client = id := eq_of_beq hx
      exact ⟨⟨h.pipeline.left (Pipeline.binary_answers g.pipeline client bytes)
        (Pipeline.binary_charges g.pipeline client bytes), h.tasks⟩, List.forall_mem_singleton.2 rfl⟩

theorem exchange (h : Apart id g g') (client : String) {o o' : Outcome} (houtcome : o' = o) :
    [(⟨client, g'.clock, o'⟩ : Exchange)] = [⟨client, g.clock, o⟩] := by
  rw [h.clock, houtcome]

/-- Anything else in both. -/
theorem move (h : Apart id g g') (hx : x.isFrom id = false) (hstop : x.isWholeStop = false)
    (hfull : ∀ y ∈ (g.move x).1, y.outcome.rejection? = some .queueFull →
      g.aggregator.accepting = false)
    (hstart : x.isStart = true →
      g'.aggregator.drainDeadline?.isSome = g.aggregator.drainDeadline?.isSome) :
    (g'.move x).1 = (g.move x).1 ∧ Apart id (g.move x).2 (g'.move x).2 ∧
      ∀ y ∈ (g.move x).1, y.client ≠ id := by
  cases x with
  | ask request reads =>
    refine ⟨rfl, ⟨⟨h.pipeline.limits, ?_, h.pipeline.view⟩, h.tasks⟩, List.forall_mem_nil _⟩
    show RateLimit.Limiter.AgreeOff id
      (g.pipeline.limiter.answer ⟨g.clock, request⟩).2
      (g'.pipeline.limiter.answer ⟨g'.clock, request⟩).2
    rw [h.clock]
    exact h.pipeline.limiter.answer reads
  | act x =>
    cases x with
    | background b =>
      refine ⟨rfl, h.proceed ?_ ?_, List.forall_mem_nil _⟩
      · rintro rfl
        cases hstop
      · rintro rfl
        exact hstart rfl
    | message client text =>
      have hclient : client ≠ id := ne_of_beq_false hx
      obtain ⟨houtcome, hpipeline⟩ :=
        h.pipeline.message hclient text (hfull _ (List.mem_singleton.2 rfl))
      exact ⟨h.exchange client houtcome, ⟨hpipeline, h.tasks⟩, List.forall_mem_singleton.2 hclient⟩
    | binary client bytes =>
      have hclient : client ≠ id := ne_of_beq_false hx
      obtain ⟨houtcome, hpipeline⟩ :=
        h.pipeline.binary hclient bytes (hfull _ (List.mem_singleton.2 rfl))
      exact ⟨h.exchange client houtcome, ⟨hpipeline, h.tasks⟩, List.forall_mem_singleton.2 hclient⟩

/-- The run with the messages of the client, and the run without them. -/
theorem play (moves : List Move) : ∀ {g g' : Gateway}, Apart id g g' →
    (∀ x ∈ moves, x.isWholeStop = false) → g.neverFull moves = true →
    startsAlike id g g' moves = true →
    (g'.play (without id moves)).1 = (g.play moves).1.filter (fun y => y.client != id) ∧
      Apart id (g.play moves).2 (g'.play (without id moves)).2 := by
  induction moves with
  | nil => exact fun h _ _ _ => ⟨rfl, h⟩
  | cons x rest ih =>
    intro g g' h hstops hfull hstarts
    obtain ⟨hstop, hstops⟩ := List.forall_mem_cons.1 hstops
    unfold neverFull at hfull
    unfold startsAlike at hstarts
    obtain ⟨hfirst, hfull⟩ := Bool.and_eq_true_iff.1 hfull
    rw [play_cons, List.filter_append]
    cases hx : x.isFrom id with
    | true =>
      -- only the first gateway moves, and its exchange is dropped from the outcomes
      rw [if_pos hx] at hstarts
      obtain ⟨hleft, hclients⟩ := h.move_left hx
      obtain ⟨houtcomes, hrest⟩ := ih hleft hstops hfull hstarts
      have hnone : (g.move x).1.filter (fun y => y.client != id) = [] :=
        List.filter_eq_nil_iff.2 fun y hy => by simp [hclients y hy]
      have hdrop : without id (x :: rest) = without id rest := by simp [without, hx]
      rw [hdrop, hnone]
      exact ⟨houtcomes, hrest⟩
    | false =>
      rw [if_neg (by simp [hx])] at hstarts
      obtain ⟨hstart, hstarts⟩ := Bool.and_eq_true_iff.1 hstarts
      obtain ⟨hsame, hboth, hclients⟩ := h.move hx hstop
        (fun y hy hwhy => by simpa [hwhy] using List.all_eq_true.1 hfirst y hy)
        (fun hs => by simpa [hs] using hstart)
      obtain ⟨houtcomes, hrest⟩ := ih hboth hstops hfull hstarts
      have hall : (g.move x).1.filter (fun y => y.client != id) = (g.move x).1 :=
        List.filter_eq_self.2 fun y hy => bne_iff_ne.2 (hclients y hy)
      have hkeep : without id (x :: rest) = x :: without id rest := by simp [without, hx]
      rw [hkeep, play_cons, hall, hsame, houtcomes]
      exact ⟨rfl, hrest⟩

end Apart

/-! ## Every run -/

/-- The first run with the messages of a client, and the second without them: `outcomes`, the messages of all
other clients have the same outcomes; `dispatched`, whenever the collector does not run, as when a stop has
returned, the same events of other clients have left. -/
structure Separated (id : String) (r r' : List Exchange × Gateway) : Prop where
  outcomes : r'.1 = r.1.filter fun y => y.client != id
  dispatched : r.2.aggregator.isRunning = false →
    r'.2.ledger.dispatched.flatten = r.2.ledger.dispatched.flatten.filter (Event.notFrom id)

theorem Apart.dispatched {id : String} {g g' : Gateway} (h : Apart id g g')
    (hrun : g.aggregator.isRunning = false) :
    g'.ledger.dispatched.flatten = g.ledger.dispatched.flatten.filter (Event.notFrom id) := by
  have hrun' : g'.aggregator.isRunning = false :=
    (congrArg View.running h.pipeline.view).trans hrun
  have hqueue : g'.aggregator.queue = g.aggregator.queue.filter (Event.notFrom id) :=
    congrArg View.queue h.pipeline.view
  have hcontents : g'.aggregator.contents = g.aggregator.contents.filter (Event.notFrom id) :=
    congrArg View.contents h.pipeline.view
  unfold Aggregator.contents at hcontents
  rw [Aggregator.openBatch_of_not_running hrun, Aggregator.openBatch_of_not_running hrun',
    List.append_nil, List.append_nil, List.filter_append, hqueue] at hcontents
  exact List.append_cancel_right hcontents

/-- **No client affects another**, in any run in which no event is refused because the queue is full and each
start finds a stop waiting with the messages of the client if and only if it does without them. A stop is
taken as its beginning and the time for which it waits. -/
theorem play_separates (c : Gateway.Config) (handlers : Aggregator.Handlers) (clock : Int)
    (id : String) (moves : List Move) (hstops : ∀ x ∈ moves, x.isWholeStop = false)
    (hfull : (build c handlers clock).neverFull moves = true)
    (hstarts : startsAlike id (build c handlers clock) (build c handlers clock) moves = true) :
    Separated id ((build c handlers clock).play moves)
      ((build c handlers clock).play (without id moves)) := by
  have hbegin : Apart id (build c handlers clock) (build c handlers clock) :=
    ⟨⟨rfl, .refl id _, rfl⟩, rfl⟩
  obtain ⟨houtcomes, hapart⟩ := hbegin.play moves hstops hfull hstarts
  exact ⟨houtcomes, hapart.dispatched⟩

def beat (client : String) : Move :=
  .act (.message client "\x7b\"type\":\"heartbeat\",\"timestamp\":0,\"game_id\":\"g\"\x7d")

def meanwhile (b : Background) : Move := .act (.background b)

/-- Two clients, of which the second sends too much and something that is not a text, while the rate limiter
is read and reaped; then a stop, and a message that comes too late. -/
def sampleMoves : List Move :=
  [meanwhile .start, beat "alice", beat "bob", beat "bob", .ask (.usage "bob") rfl, meanwhile .advance,
    meanwhile (.pass 10), beat "alice", meanwhile (.perform .reap), .act (.binary "bob" ⟨#[255]⟩),
    meanwhile .halt, meanwhile .advance, meanwhile .conclude, meanwhile (.pass 10), beat "alice"]

/-- A gateway that admits one message of a client in 10 milliseconds. -/
def sampleGateway : Gateway :=
  build { Config.standard with rateLimit := { RateLimit.tight with sustainedLimit := 3 } }
    ⟨some .log, [.counter]⟩ 0

theorem sampleMoves_separate :
    (∀ x ∈ sampleMoves, x.isWholeStop = false) ∧ sampleGateway.neverFull sampleMoves = true ∧
      startsAlike "bob" sampleGateway sampleGateway sampleMoves = true ∧
      (sampleGateway.play sampleMoves).1.map (fun y => (y.client, y.outcome.rejection?)) =
        [("alice", none), ("bob", none), ("bob", some .rateLimited), ("alice", none),
          ("bob", some .invalidFormat), ("alice", some .queueFull)] ∧
      (sampleGateway.play (without "bob" sampleMoves)).1.map (fun y => (y.client, y.outcome.rejection?)) =
        [("alice", none), ("alice", none), ("alice", some .queueFull)] ∧
      (sampleGateway.play (without "bob" sampleMoves)).2.ledger.dispatched.flatten.map
        (fun e => (e.client, e.receivedAt)) =
          [(some "alice", some (.ofMillis 0)), (some "alice", some (.ofMillis 10))] := by
  have hstops : ∀ x ∈ sampleMoves, x.isWholeStop = false := by decide
  have hfull : sampleGateway.neverFull sampleMoves = true := by decide +kernel
  have hstarts : startsAlike "bob" sampleGateway sampleGateway sampleMoves = true := by decide +kernel
  have hseparated : Separated "bob" (sampleGateway.play sampleMoves)
      (sampleGateway.play (without "bob" sampleMoves)) :=
    play_separates _ _ 0 "bob" sampleMoves hstops hfull hstarts
  refine ⟨hstops, hfull, hstarts, by decide +kernel, ?_, ?_⟩
  · rw [hseparated.outcomes]
    decide +kernel
  · rw [hseparated.dispatched (by decide +kernel)]
    decide +kernel

/-- A message of each client, which together fill a batch; when that is delivered, a stop and a start, and
another message of the first client. -/
def restartMoves : List Move :=
  [meanwhile .start, meanwhile .advance, beat "alice", beat "bob", meanwhile .advance, meanwhile .conclude,
    meanwhile (.pass 3000), meanwhile .advance, meanwhile .conclude, meanwhile .halt, meanwhile .advance,
    meanwhile .conclude, meanwhile .start, beat "alice"]

/-- A gateway that delivers slowly, and a batch of two events ahead of its window. -/
def slowGateway : Gateway :=
  build
    { Config.standard with
      aggregator := { Aggregator.Config.standard with batchWindow := 5000, maxBatchSize := 2 } }
    ⟨none, [⟨"archive", .keep, fun _ => ⟨3000, .done⟩⟩]⟩ 0

/-- With the messages of the second client no start finds a stop waiting. Without them the first event leaves
with the stop and is not delivered at the start, which does nothing: the message after it is refused, though
no queue is full. -/
theorem restart_notices :
    (∀ x ∈ restartMoves, x.isWholeStop = false) ∧ slowGateway.neverFull restartMoves = true ∧
      (slowGateway.play restartMoves).1.map (fun y => (y.client, y.outcome.rejection?)) =
        [("alice", none), ("bob", none), ("alice", none)] ∧
      (slowGateway.play (without "bob" restartMoves)).1.map (fun y => (y.client, y.outcome.rejection?)) =
        [("alice", none), ("alice", some .queueFull)] ∧
      (slowGateway.play (without "bob" restartMoves)).2.aggregator.queue = [] := by
  refine ⟨by decide, by decide +kernel, by decide +kernel, by decide +kernel, ?_⟩
  exact List.isEmpty_iff.1 (by decide +kernel)

end Ingress.Gateway
