import Ingress.Proofs.Gateway.Separation
import Ingress.Proofs.Pipeline.Alarms
import Mathlib

/-!
# How often rejections are reported

Not every rejection for a full window raises a security event: the first of a client does, and every one
that makes a multiple of ten. The rate limiter counts the rejections, the pipeline decides by the count, and
the metrics keep the events; here what a run reports is told from its messages and their outcomes alone.

* `alarms`, `raised` : the security events of a move, and of a run, whatever the log has forgotten;
* `raises_move`, `raises_play` : they are what enters the log, and what the counters count;
* `stays` : the rate limiter does not forget a client in a run;
* `limited`, `sampled` : the messages of a client that are rejected for a full window, and how many security
  events go with so many rejections;
* `Follows` : one client through a run; `follows_move`, `follows_play` : a move, and a run;
* `play_samples` : every run.
-/

namespace Ingress.Gateway

open Metrics RateLimit

/-! ## What moves raise -/

def withLog (g : Gateway) (log : List SecurityEvent) : Gateway := g.write fun l => l.withLog log

/-- The security events that a move raises: what it puts into an empty log. -/
def alarms (g : Gateway) (x : Move) : List SecurityEvent :=
  ((g.withLog []).move x).2.ledger.metrics.securityLog

def raised (g : Gateway) : List Move → List SecurityEvent
  | [] => []
  | x :: rest => g.alarms x ++ (g.move x).2.raised rest

/-- Nothing in the background raises a security event. -/
theorem raises_keptByWriting (l : Ledger) :
    Aggregator.KeptByWriting (fun _ => True) (Ledger.Raises [] l) where
  note := fun _ _ _ h => ⟨h.config, h.log, h.counter⟩
  increment := fun m name n labels hname h => by
    have hbegin : ∀ name ∈ Aggregator.ownCounters, name.toList.take 2 ≠ ['s', 'e'] := by decide +kernel
    exact h.trans (.increment m (hbegin name hname) n labels)
  observe := fun m name value labels h => h.trans (.observe m name value labels)
  setGauge := fun _ _ _ _ h => ⟨h.config, h.log, h.counter⟩
  pass := fun _ _ h => ⟨h.config, h.log, h.counter⟩

theorem raises_background (g : Gateway) (b : Background) :
    Ledger.Raises [] g.ledger (g.proceed b).ledger :=
  ((holds_keptInBackground (raises_keptByWriting g.ledger)).keeps_proceed g b
    ⟨fun _ _ => trivial, fun _ _ => trivial, fun _ _ _ _ => trivial, .refl _⟩).ledger

theorem pushSecurity_nil (capacity : Nat) (e : SecurityEvent) :
    Collector.pushSecurity capacity [] e = [e] := by
  unfold Collector.pushSecurity
  split <;> rfl

/-- A message of a client raises what its stages raise. -/
theorem alarms_of_alerts {g : Gateway} {client : String} {stage : Pipeline → Pipeline} {rate : Nat}
    {alarm? : Option SecurityEvent} {x : Action} (h : Pipeline.Alerts g.pipeline client stage rate alarm?)
    (hx : ∀ g : Gateway, (g.act x).2.pipeline = stage g.pipeline) :
    g.alarms (.act x) = alarm?.toList ∧ Ledger.Raises alarm?.toList g.ledger (g.act x).2.ledger := by
  have hraises (log : List SecurityEvent) : Ledger.Raises alarm?.toList (g.withLog log).ledger
      ((g.withLog log).act x).2.ledger := by
    show Ledger.Raises _ _ ((g.withLog log).act x).2.pipeline.ledger
    rw [hx]
    exact h.raises log
  refine ⟨(hraises []).log.trans ?_, hraises g.ledger.metrics.securityLog⟩
  cases alarm? with
  | none => rfl
  | some e => exact pushSecurity_nil _ e

/-- What a move is to the rate limiter and to the log: nothing is raised, and at most clients are forgotten;
or it is a message of a client, and what it raises is about the client. -/
inductive Notes (g : Gateway) (x : Move) : Prop
  | quiet (exchanges : (g.move x).1 = []) (alarms : g.alarms x = [])
      (limiter : ∀ id, Limiter.Remembers id g.pipeline.limiter (g.move x).2.pipeline.limiter)
  | message (client : String) (outcome : Outcome)
      (exchanges : (g.move x).1 = [⟨client, g.clock, outcome⟩])
      (charges : Pipeline.Charges g.pipeline client (outcome, (g.move x).2.pipeline))
      (clients : ∀ e ∈ g.alarms x, e.client = client)
      (rate : (g.alarms x).countP SecurityEvent.isRate = g.pipeline.rateAlarms client outcome)

theorem act_alerts (g : Gateway) (x : Action) :
    (∃ b, x = .background b) ∨ ∃ client outcome alarm? stage,
      (g.act x).1 = [⟨client, g.clock, outcome⟩] ∧
      Pipeline.Charges g.pipeline client (outcome, (g.act x).2.pipeline) ∧
      Pipeline.Alerts g.pipeline client stage (g.pipeline.rateAlarms client outcome) alarm? ∧
      ∀ g : Gateway, (g.act x).2.pipeline = stage g.pipeline := by
  cases x with
  | background b => exact .inl ⟨b, rfl⟩
  | message client text =>
    obtain ⟨alarm?, halerts⟩ := Pipeline.message_alerts g.pipeline client text
    exact .inr ⟨client, _, alarm?, _, rfl, Pipeline.message_charges g.pipeline client text, halerts,
      fun _ => rfl⟩
  | binary client bytes =>
    obtain ⟨alarm?, halerts⟩ := Pipeline.binary_alerts g.pipeline client bytes
    exact .inr ⟨client, _, alarm?, _, rfl, Pipeline.binary_charges g.pipeline client bytes, halerts,
      fun _ => rfl⟩

theorem remembers_keptInBackground (id : String) (l : Limiter) :
    KeptInBackground fun g => Limiter.Remembers id l g.pipeline.limiter where
  perform := fun g duty h => by
    cases duty with
    | reap => exact h.trans (Limiter.remembers_answer _ (c := ⟨g.clock, .cleanup⟩) rfl id)
    | report => exact h
  tasks := fun _ _ h => h
  start := fun _ h => h
  halt := fun _ h => h
  pass := fun _ _ h => h
  advance := fun _ h => h
  conclude := fun _ h => h

theorem notes_move (g : Gateway) (x : Move) : Notes g x := by
  cases x with
  | ask request reads =>
    exact .quiet rfl rfl fun id => Limiter.remembers_answer _ (c := ⟨g.clock, request⟩) reads id
  | act x =>
    obtain ⟨b, rfl⟩ | ⟨client, outcome, alarm?, stage, hexchange, hcharges, halerts, hstage⟩ :=
      g.act_alerts x
    · exact .quiet rfl ((g.withLog []).raises_background b).log fun id =>
        (remembers_keptInBackground id g.pipeline.limiter).keeps_proceed g b (.refl id _)
    · obtain ⟨halarms, -⟩ := alarms_of_alerts halerts hstage
      refine .message client outcome hexchange hcharges ?_ ?_
      · rw [halarms]
        exact fun e he => halerts.client e (Option.mem_toList.1 he)
      · rw [halarms]
        exact halerts.rate

theorem raises_move (g : Gateway) (x : Move) :
    Ledger.Raises (g.alarms x) g.ledger (g.move x).2.ledger := by
  cases x with
  | ask request reads => exact .refl _
  | act x =>
    obtain ⟨b, rfl⟩ | ⟨client, outcome, alarm?, stage, -, -, halerts, hstage⟩ := g.act_alerts x
    · rw [show g.alarms (.act (.background b)) = [] from ((g.withLog []).raises_background b).log]
      exact g.raises_background b
    · obtain ⟨halarms, hraises⟩ := alarms_of_alerts halerts hstage
      rw [halarms]
      exact hraises

/-- What a run raises enters the log, and is counted, move by move. -/
theorem raises_play (moves : List Move) : ∀ g : Gateway,
    Ledger.Raises (g.raised moves) g.ledger (g.play moves).2.ledger := by
  induction moves with
  | nil => exact fun g => .refl _
  | cons x rest ih => exact fun g => (g.raises_move x).trans (ih _)

/-- Whatever is raised is about a client that has sent a message. -/
theorem client_of_mem_raised (moves : List Move) : ∀ g : Gateway,
    ∀ e ∈ g.raised moves, ∃ y ∈ (g.play moves).1, y.client = e.client := by
  induction moves with
  | nil => exact fun _ _ he => absurd he List.not_mem_nil
  | cons x rest ih =>
    intro g e he
    rw [play_cons]
    rcases List.mem_append.1 he with hfirst | hrest
    · cases g.notes_move x with
      | quiet _ alarms _ =>
        rw [alarms] at hfirst
        cases hfirst
      | message client outcome exchanges _ clients _ =>
        refine ⟨⟨client, g.clock, outcome⟩, List.mem_append_left _ ?_, (clients e hfirst).symm⟩
        rw [exchanges]
        exact List.mem_singleton_self _
    · obtain ⟨y, hy, hclient⟩ := ih _ e hrest
      exact ⟨y, List.mem_append_right _ hy, hclient⟩

/-! ## One client -/

/-- The rate limiter does not forget a client: whenever the client holds state before a move, it does after. -/
def stays (id : String) (g : Gateway) : List Move → Bool
  | [] => true
  | x :: rest =>
    (!g.pipeline.limiter.clients.contains id || (g.move x).2.pipeline.limiter.clients.contains id) &&
      stays id (g.move x).2 rest

/-- The message is of a client and was rejected for a full window. -/
def Exchange.isLimited (id : String) (y : Exchange) : Bool :=
  y.client == id && y.outcome.rejection? == some .rateLimited

/-- The messages of a client that were rejected for a full window. -/
def limited (id : String) (exchanges : List Exchange) : Nat := exchanges.countP (Exchange.isLimited id)

def reported (id : String) (alarms : List SecurityEvent) : Nat :=
  alarms.countP fun e => e.isRate && e.client == id

/-- The security events that go with so many rejections: one for the first, and one for every tenth. -/
def sampled (rejections : Nat) : Nat := (if 1 ≤ rejections then 1 else 0) + rejections / 10

theorem sampled_succ (n : Nat) : sampled (n + 1) = sampled n + Pipeline.reports (n + 1) := by
  unfold sampled Pipeline.reports Pipeline.reportEvery
  split <;> split <;> split <;> omega

theorem limited_append (id : String) (xs ys : List Exchange) :
    limited id (xs ++ ys) = limited id xs + limited id ys := List.countP_append

theorem reported_append (id : String) (xs ys : List SecurityEvent) :
    reported id (xs ++ ys) = reported id xs + reported id ys := List.countP_append

theorem limited_singleton (id client : String) (time : Int) (o : Outcome) :
    limited id [⟨client, time, o⟩] =
      if client = id ∧ o.rejection? = some .rateLimited then 1 else 0 := by
  unfold limited
  rw [List.countP_singleton]
  simp [Exchange.isLimited]

/-- The security events about the rate of a client, among some that are all about one client. -/
theorem reported_of_client {client : String} {alarms : List SecurityEvent}
    (h : ∀ e ∈ alarms, e.client = client) (id : String) :
    reported id alarms = if client = id then alarms.countP SecurityEvent.isRate else 0 := by
  unfold reported
  by_cases hid : client = id
  · rw [if_pos hid]
    exact List.countP_congr fun e he => by simp [h e he, hid]
  · rw [if_neg hid]
    exact List.countP_eq_zero.2 fun e he => by simp [h e he, hid]

/-- From the rate limiter `l` to `l'`: `rejections`, it has counted each message of the client that was
rejected for a full window; `reported`, as many of them were reported as go with the counts. -/
structure Follows (id : String) (exchanges : List Exchange) (alarms : List SecurityEvent)
    (l l' : Limiter) : Prop where
  rejections : l'.rejections id = l.rejections id + limited id exchanges
  reported : sampled (l'.rejections id) = sampled (l.rejections id) + reported id alarms

variable {id : String} {l l' l'' : Limiter} {exchanges more : List Exchange}
  {alarms others : List SecurityEvent}

theorem Follows.trans (h : Follows id exchanges alarms l l') (h' : Follows id more others l' l'') :
    Follows id (exchanges ++ more) (alarms ++ others) l l'' := by
  refine ⟨?_, ?_⟩
  · rw [h'.rejections, h.rejections, limited_append, Nat.add_assoc]
  · rw [h'.reported, h.reported, reported_append, Nat.add_assoc]

/-- The rate limiter counts a message of the client if, and only if, it is rejected for a full window. -/
theorem rejections_of_charges {p : Pipeline} {client : String} {r : Outcome × Pipeline}
    (h : Pipeline.Charges p client r) (id : String) (time : Int) :
    r.2.limiter.rejections id = p.limiter.rejections id + limited id [⟨client, time, r.1⟩] := by
  rw [limited_singleton]
  cases h with
  | unread outcome limiter =>
    have hwhy : r.1.rejection? ≠ some .rateLimited := by
      intro hwhy
      rw [Outcome.isUnread, hwhy] at outcome
      exact absurd outcome (by decide)
    rw [limiter, if_neg fun h => hwhy h.2]
    rfl
  | asked outcome limiter =>
    rw [limiter, Limiter.rejections_check]
    simp only [Admission.refusal_iff_of_allows outcome, eq_comm (a := id)]
    split <;> rfl

theorem follows_move (g : Gateway) (x : Move)
    (hstays : g.pipeline.limiter.clients.contains id = true →
      (g.move x).2.pipeline.limiter.clients.contains id = true) :
    Follows id (g.move x).1 (g.alarms x) g.pipeline.limiter (g.move x).2.pipeline.limiter := by
  cases g.notes_move x with
  | quiet exchanges alarms limiter =>
    have hsame := (limiter id).rejections hstays
    rw [exchanges, alarms]
    exact ⟨hsame, congrArg sampled hsame⟩
  | message client outcome exchanges charges clients rate =>
    have hcount := rejections_of_charges charges id g.clock
    rw [exchanges]
    refine ⟨hcount, ?_⟩
    -- both sides change only when the message is of the client, and rejected for a full window
    rw [show (g.move x).2.pipeline.limiter.rejections id = _ from hcount, limited_singleton,
      reported_of_client clients, rate, Pipeline.rateAlarms]
    by_cases hid : client = id
    · subst hid
      by_cases hwhy : outcome.rejection? = some .rateLimited
      · rw [if_pos ⟨rfl, hwhy⟩, if_pos rfl, if_pos hwhy, sampled_succ]
      · rw [if_neg fun h => hwhy h.2, if_pos rfl, if_neg hwhy]
        rfl
    · rw [if_neg fun h => hid h.1, if_neg hid]
      rfl

theorem follows_play (moves : List Move) : ∀ g : Gateway, g.stays id moves = true →
    Follows id (g.play moves).1 (g.raised moves) g.pipeline.limiter
      (g.play moves).2.pipeline.limiter := by
  induction moves with
  | nil => exact fun g _ => ⟨rfl, rfl⟩
  | cons x rest ih =>
    intro g h
    obtain ⟨hfirst, hrest⟩ := Bool.and_eq_true_iff.1 h
    refine (g.follows_move x fun hheld => ?_).trans (ih _ hrest)
    simpa [hheld] using hfirst

/-- A client that had no rejections at the beginning is reported as its rejections demand. -/
theorem reported_raised {g : Gateway} {moves : List Move} (hbegin : g.pipeline.limiter.rejections id = 0)
    (hstays : g.stays id moves = true) :
    reported id (g.raised moves) = sampled (limited id (g.play moves).1) := by
  have hfollows := follows_play moves g hstays
  have hreported := hfollows.reported
  rw [hfollows.rejections, hbegin, Nat.zero_add] at hreported
  exact (hreported.trans (Nat.zero_add _)).symm

/-! ## Every run -/

/-- The security events of a client's rate add up over any clients among which are all that they are about. -/
theorem countP_isRate_eq_sum {alarms : List SecurityEvent} {clients : Finset String}
    (h : ∀ e ∈ alarms, e.client ∈ clients) :
    alarms.countP SecurityEvent.isRate = ∑ id ∈ clients, reported id alarms := by
  induction alarms with
  | nil => exact Finset.sum_eq_zero (fun _ _ => rfl) |>.symm
  | cons e rest ih =>
    obtain ⟨he, hrest⟩ := List.forall_mem_cons.1 h
    have hone : (∑ id ∈ clients, if e.client = id then (if e.isRate = true then 1 else 0) else 0) =
        if e.isRate = true then 1 else 0 := by
      rw [Finset.sum_ite_eq, if_pos he]
    have hreported (id : String) : reported id (e :: rest) =
        reported id rest + if e.client = id then (if e.isRate = true then 1 else 0) else 0 := by
      unfold reported
      rw [List.countP_cons]
      by_cases hid : e.client = id <;> simp [hid]
    rw [List.countP_cons, ih hrest, Finset.sum_congr rfl fun id _ => hreported id,
      Finset.sum_add_distrib, hone]

/-- What a run says of its security events: `log`, what was raised has entered the log; `counter`, and is
counted by its type; `client`, of a client that the rate limiter has not forgotten, the first rejection for a
full window is reported, and every tenth; `total`, if it has forgotten none of those that have sent a
message, the counter of such reports is the sum over them. -/
structure Samples (g : Gateway) (moves : List Move) : Prop where
  log : (g.play moves).2.ledger.metrics.securityLog = (g.raised moves).foldl
    (Collector.pushSecurity g.ledger.metrics.config.securityLogSize) []
  counter : ∀ type, (g.play moves).2.ledger.counter (Name.securityEvents type) =
    ((g.raised moves).countP fun e => e.type == type) % counterBound
  client : ∀ id, g.stays id moves = true →
    reported id (g.raised moves) = sampled (limited id (g.play moves).1)
  total : (∀ y ∈ (g.play moves).1, g.stays y.client moves = true) →
    (g.play moves).2.ledger.counter (Name.securityEvents Name.rateExceeded) =
      (∑ id ∈ ((g.play moves).1.map Exchange.client).toFinset, sampled (limited id (g.play moves).1)) %
        counterBound

/-- **Rejections are reported by their count**: whatever lies between them and whichever window was full, the
first of a client and every tenth raises a security event, in every run. -/
theorem play_samples (c : Gateway.Config) (handlers : Aggregator.Handlers) (clock : Int)
    (moves : List Move) : Samples (build c handlers clock) moves := by
  have hraises := (build c handlers clock).raises_play moves
  have hcounter (type : String) :
      ((build c handlers clock).play moves).2.ledger.counter (Name.securityEvents type) =
        (((build c handlers clock).raised moves).countP fun e => e.type == type) % counterBound :=
    (hraises.counter type 0 rfl).trans (congrArg (· % counterBound) (Nat.zero_add _))
  refine ⟨hraises.log, hcounter, fun id => reported_raised rfl, fun hstays => ?_⟩
  have hclients : ∀ e ∈ (build c handlers clock).raised moves,
      e.client ∈ (((build c handlers clock).play moves).1.map Exchange.client).toFinset := by
    intro e he
    obtain ⟨y, hy, hsent⟩ := client_of_mem_raised moves _ e he
    exact List.mem_toFinset.2 (List.mem_map.2 ⟨y, hy, hsent⟩)
  have hsampled : ∀ id ∈ (((build c handlers clock).play moves).1.map Exchange.client).toFinset,
      reported id ((build c handlers clock).raised moves) =
        sampled (limited id ((build c handlers clock).play moves).1) := by
    intro id hid
    obtain ⟨y, hy, rfl⟩ := List.mem_map.1 (List.mem_toFinset.1 hid)
    exact reported_raised rfl (hstays y hy)
  rw [← Finset.sum_congr rfl hsampled, ← countP_isRate_eq_sum hclients]
  exact hcounter Name.rateExceeded

/-- One client sends too much for either window, and has some admitted; another one sends too much between. -/
def sampleRejections : List Move :=
  List.replicate 7 (beat "bob") ++ [beat "alice", beat "alice", meanwhile (.pass 10), beat "bob",
    beat "bob", meanwhile (.pass 10), beat "bob", meanwhile (.pass 10), .ask (.top 2) rfl] ++
    List.replicate 3 (beat "bob")

/-- The tenth rejection is the third for the sustained window, and is reported. -/
theorem sampleRejections_sampled :
    (∀ y ∈ (sampleGateway.play sampleRejections).1,
        sampleGateway.stays y.client sampleRejections = true) ∧
      ((sampleGateway.play sampleRejections).1.filter (Exchange.isLimited "bob")).map Exchange.outcome =
        List.replicate 7 (.refused .rateLimited "burst rate limit exceeded") ++
          List.replicate 3 (.refused .rateLimited "sustained rate limit exceeded") ∧
      reported "bob" (sampleGateway.raised sampleRejections) = 2 ∧
      reported "alice" (sampleGateway.raised sampleRejections) = 1 ∧
      (sampleGateway.play sampleRejections).2.ledger.counter
        "security_events_rate_limit_exceeded_total" = 3 := by
  have hstays : ∀ y ∈ (sampleGateway.play sampleRejections).1,
      sampleGateway.stays y.client sampleRejections = true := by decide +kernel
  have hsamples : Samples sampleGateway sampleRejections := play_samples _ _ 0 sampleRejections
  refine ⟨hstays, by decide +kernel, ?_, ?_, (hsamples.total hstays).trans (by decide +kernel)⟩
  · exact (hsamples.client "bob" (by decide +kernel)).trans (by decide +kernel)
  · exact (hsamples.client "alice" (by decide +kernel)).trans (by decide +kernel)

end Ingress.Gateway
