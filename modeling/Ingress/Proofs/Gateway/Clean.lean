import Ingress.Proofs.Gateway.Run
import Ingress.Proofs.Sanitize.Event
import Mathlib

/-!
# What handlers are given

* `Ledger.handed` : the events that handlers were given;
* `Accepted`, `acceptedIn` : the messages of a run that are accepted;
* `Accepted.Yields` : the event of a message, with the client and the time of that message;
* `yields_act`, `yields_exec` : what is taken are the events of the accepted messages, step by step and in a
  run;
* `given_act`, `given_exec` : what handlers are given are such events;
* `exec_yields`, `exec_clean` : both, and these events are clean.
-/

namespace Ingress

open Sanitize

/-! ## Events that handlers are given -/

namespace Ledger

/-- The events that an occurrence hands to a handler. -/
def handedBy : Occurrence → List Event
  | .invoked _ batch => batch
  | _ => []

/-- The events that handlers were given, oldest first; one that several are given counts for each. -/
def handed (l : Ledger) : List Event := l.journal.flatMap fun h => handedBy h.what

theorem handed_note (l : Ledger) (what : Occurrence) :
    (l.note what).handed = l.handed ++ handedBy what := by
  unfold handed note
  rw [List.flatMap_append, List.flatMap_singleton]

theorem handed_of_journal {l l' : Ledger} (h : l'.journal = l.journal) : l'.handed = l.handed := by
  unfold handed
  rw [h]

end Ledger

/-- Handlers are given only events with `E` as long as batches consist of such events. -/
theorem handed_keptByWriting (E : Event → Prop) :
    Aggregator.KeptByWriting E fun l => ∀ e ∈ l.handed, E e where
  note := fun l what hwhat hl => by
    rw [Ledger.handed_note, List.forall_mem_append]
    refine ⟨hl, ?_⟩
    cases what with
    | invoked place batch => exact hwhat
    | _ => exact List.forall_mem_nil _
  increment := fun _ _ _ _ _ hl => hl
  observe := fun _ _ _ _ hl => hl
  setGauge := fun _ _ _ _ hl => hl
  pass := fun _ _ hl => hl

/-- A message leaves what is held as it was, or adds its event, stamped. -/
theorem Pipeline.Answers.holds {p : Pipeline} {client : String} {S E : Event → Prop}
    {P : Ledger → Prop} {r : Outcome × Pipeline} (h : Answers p client S r)
    (hp : Aggregator.Holds E P p.aggregator)
    (hE : r.1 = .accepted → ∀ e, S e → E (e.stamp client (.ofMillis p.clock)))
    (hP : P r.2.ledger) : Aggregator.Holds E P r.2.aggregator := by
  cases h.enqueues with
  | nothing outcome aggregator =>
    rw [aggregator]
    exact ⟨hp.queue, hp.openBatch, hp.jobs, hP⟩
  | event e source outcome aggregator =>
    rw [aggregator]
    exact ⟨List.forall_mem_append.2
      ⟨hp.queue, List.forall_mem_singleton.2 (hE outcome e source)⟩, hp.openBatch, hp.jobs, hP⟩

namespace Gateway

/-! ## Accepted messages -/

structure Accepted where
  client : String
  text : String
  time : Int

/-- The message of an action, if there is one and it is accepted. -/
def acceptedBy (g : Gateway) (x : Action) : List Accepted :=
  ((g.act x).1.filter fun y => y.outcome == .accepted).flatMap fun y =>
    x.text?.toList.map fun text => ⟨y.client, text, y.time⟩

def acceptedIn (g : Gateway) : List Action → List Accepted
  | [] => []
  | x :: rest => g.acceptedBy x ++ (g.act x).2.acceptedIn rest

/-- The event of a message: what is read of its text, which is valid when it comes, with its client, which has a
proper id, and its time. -/
def Accepted.Yields (l : Limits) (m : Accepted) (e : Event) : Prop :=
  RateLimit.isClientId m.client = true ∧ ∃ v read, Json.parse? m.text = some v ∧
    (Validation.validate l m.time v).isValid = true ∧ Event.ofValue (event l v) = .ok read ∧
    e = read.stamp m.client (.ofMillis m.time)

/-- The event of a message is clean. -/
theorem Accepted.Yields.isClean {l : Limits} {m : Accepted} {e : Event} (h : m.Yields l e)
    (hl : Limits.config.violations l = []) : IsClean l e := by
  obtain ⟨-, v, read, hparse, hvalid, hread, rfl⟩ := h
  have hclean := isClean_of_isValid hl (Json.parse?_sorted hparse) hvalid hread
  exact ⟨hclean.kind, hclean.finite, hclean.nonneg, hclean.gameId, hclean.data⟩

theorem yields_of_standsFor {g : Gateway} {client text : String} {e : Event}
    (h : g.pipeline.StandsFor client text e) :
    (Accepted.mk client text g.clock).Yields g.pipeline.limits (e.stamp client (.ofMillis g.clock)) :=
  let ⟨hclient, v, hparse, hvalid, hread⟩ := h
  ⟨hclient, v, e, hparse, hvalid, hread, rfl⟩

theorem acceptedBy_of_accepted {g : Gateway} {x : Action} {client text : String} {time : Int}
    (hexchange : (g.act x).1 = [⟨client, time, .accepted⟩]) (htext : x.text? = some text) :
    g.acceptedBy x = [⟨client, text, time⟩] := by
  unfold acceptedBy
  rw [hexchange, htext]
  rfl

theorem acceptedBy_of_refused {g : Gateway} {x : Action} {client : String} {time : Int}
    {outcome : Outcome} (hexchange : (g.act x).1 = [⟨client, time, outcome⟩])
    (hrefused : outcome ≠ .accepted) : g.acceptedBy x = [] := by
  unfold acceptedBy
  rw [hexchange, List.filter_cons_of_neg (by simpa using hrefused)]
  rfl

/-! ## What is taken -/

/-- An action adds to what was taken the event of its message, if that is accepted. -/
theorem yields_act (g : Gateway) (x : Action) :
    ∃ es, (g.act x).2.aggregator.contents = g.aggregator.contents ++ es ∧
      List.Forall₂ (Accepted.Yields g.pipeline.limits) (g.acceptedBy x) es := by
  obtain ⟨b, rfl⟩ | ⟨client, outcome, hexchange, hanswers⟩ := g.act_answers x
  · exact ⟨[], ((contents_keptInBackground _).keeps_proceed g b rfl).trans (List.append_nil _).symm,
      .nil⟩
  · rcases hanswers.view with ⟨hrefused, hview⟩ | ⟨e, ⟨text, htext, hevent⟩, haccepted, hview⟩
    · rw [acceptedBy_of_refused hexchange hrefused]
      exact ⟨[], (congrArg View.contents hview).trans (List.append_nil _).symm, .nil⟩
    · obtain rfl : outcome = .accepted := haccepted
      rw [acceptedBy_of_accepted hexchange htext]
      exact ⟨_, congrArg View.contents hview, .cons (yields_of_standsFor hevent) .nil⟩

/-- A run adds to what was taken the events of its accepted messages, in order. -/
theorem yields_exec (actions : List Action) : ∀ g : Gateway,
    ∃ es, (g.exec actions).2.aggregator.contents = g.aggregator.contents ++ es ∧
      List.Forall₂ (Accepted.Yields g.pipeline.limits) (g.acceptedIn actions) es := by
  induction actions with
  | nil => exact fun g => ⟨[], (List.append_nil _).symm, .nil⟩
  | cons x rest ih =>
    intro g
    obtain ⟨first, hfirst, hmessages⟩ := yields_act g x
    obtain ⟨more, hmore, hrest⟩ := ih (g.act x).2
    rw [limits_act] at hrest
    refine ⟨first ++ more, ?_, List.rel_append hmessages hrest⟩
    rw [exec_cons, hmore, hfirst, List.append_assoc]

/-! ## What handlers are given -/

/-- An event of one of the messages. -/
def StemsFrom (l : Limits) (messages : List Accepted) (e : Event) : Prop := ∃ m ∈ messages, m.Yields l e

/-- Whatever waits or was given to a handler is an event of one of the messages. -/
def GivenOf (l : Limits) (messages : List Accepted) (a : Aggregator) : Prop :=
  Aggregator.Holds (StemsFrom l messages) (fun m => ∀ e ∈ m.handed, StemsFrom l messages e) a

variable {messages : List Accepted}

theorem given_act (g : Gateway) (x : Action) (hx : ∀ m ∈ g.acceptedBy x, m ∈ messages)
    (h : GivenOf g.pipeline.limits messages g.aggregator) :
    GivenOf g.pipeline.limits messages (g.act x).2.aggregator := by
  obtain ⟨b, rfl⟩ | ⟨client, outcome, hexchange, hanswers⟩ := g.act_answers x
  · exact (holds_keptInBackground (handed_keptByWriting _)).keeps_proceed g b h
  · have hhanded : (g.act x).2.ledger.handed = g.ledger.handed :=
      Ledger.handed_of_journal hanswers.ledger.journal
    refine hanswers.holds h ?_ fun e he => h.ledger e (hhanded ▸ he)
    rintro ⟨⟩ e ⟨text, htext, hevent⟩
    rw [acceptedBy_of_accepted hexchange htext] at hx
    exact ⟨_, hx _ (List.mem_singleton_self _), yields_of_standsFor hevent⟩

theorem given_exec (actions : List Action) : ∀ g : Gateway,
    (∀ m ∈ g.acceptedIn actions, m ∈ messages) → GivenOf g.pipeline.limits messages g.aggregator →
      GivenOf g.pipeline.limits messages (g.exec actions).2.aggregator := by
  induction actions with
  | nil => exact fun _ _ h => h
  | cons x rest ih =>
    intro g hmessages h
    obtain ⟨hfirst, hrest⟩ := List.forall_mem_append.1 hmessages
    have hact := given_act g x hfirst h
    rw [← limits_act g x] at hact ⊢
    exact ih _ hrest hact

/-! ## Every run -/

/-- In order, the events that were taken are those of the accepted messages, and each that a handler was given is
one of theirs. -/
theorem exec_yields (c : Gateway.Config) (handlers : Aggregator.Handlers) (clock : Int)
    (actions : List Action) :
    List.Forall₂ (Accepted.Yields c.limits) ((build c handlers clock).acceptedIn actions)
        ((build c handlers clock).exec actions).2.aggregator.contents ∧
      ∀ e ∈ ((build c handlers clock).exec actions).2.ledger.handed,
        StemsFrom c.limits ((build c handlers clock).acceptedIn actions) e := by
  obtain ⟨es, hes, hyields⟩ := yields_exec actions (build c handlers clock)
  -- at the beginning nothing was taken, and nothing handed over
  have hbegin : GivenOf c.limits ((build c handlers clock).acceptedIn actions)
      (build c handlers clock).aggregator :=
    ⟨List.forall_mem_nil _, List.forall_mem_nil _, List.forall_mem_nil _, List.forall_mem_nil _⟩
  rw [show ((build c handlers clock).exec actions).2.aggregator.contents = es from hes]
  exact ⟨hyields, (given_exec actions _ (fun _ h => h) hbegin).ledger⟩

/-- **Every event that a handler is given is clean**, and is the event of a message that was accepted, with the
client and the time of that message, at any point of any run. In order, the events that were taken are
those of the accepted messages, each of its own. -/
theorem exec_clean {c : Gateway.Config} (hc : c.check = .ok ()) (handlers : Aggregator.Handlers)
    (clock : Int) (actions : List Action) :
    List.Forall₂ (Accepted.Yields c.limits) ((build c handlers clock).acceptedIn actions)
        ((build c handlers clock).exec actions).2.aggregator.contents ∧
      ∀ e ∈ ((build c handlers clock).exec actions).2.ledger.handed,
        IsClean c.limits e ∧ StemsFrom c.limits ((build c handlers clock).acceptedIn actions) e := by
  obtain ⟨htaken, hgiven⟩ := exec_yields c handlers clock actions
  refine ⟨htaken, fun e he => ?_⟩
  obtain ⟨m, hm, hyields⟩ := hgiven e he
  exact ⟨hyields.isClean (Config.limits_of_check hc), m, hm, hyields⟩

/-- A purchase with a bell in a text and a number out of range, a later heartbeat, one that names its
client, and time for a batch. -/
def sampleDay : List Exchange × Gateway :=
  (build .standard ⟨some ⟨"keeper", .keep, fun _ => .atOnce⟩, []⟩ 0).exec
    [.background .start,
      .message "alice" ("\x7b\"type\":\"card_purchased\",\"timestamp\":0,\"game_id\":\"g\"," ++
        "\"data\":\x7b\"cost\":5,\"note\":\"a\\u0007\",\"seed\":-1e12\x7d\x7d"),
      .background (.pass 40),
      .message "bob" "\x7b\"type\":\"heartbeat\",\"timestamp\":0,\"game_id\":\"g\"\x7d",
      .message "bob" ("\x7b\"type\":\"heartbeat\",\"timestamp\":0,\"game_id\":\"g\"," ++
        "\"client_id\":\"alice\"\x7d"),
      .background .advance, .background (.pass 100), .background .advance, .background .conclude]

theorem sampleDay_clean : Config.standard.check = .ok () ∧
    sampleDay.2.ledger.handed.map
        (fun e => (e.client, e.receivedAt.map Instant.total, (Json.Value.object e.data).render)) =
      [(some "alice", some 0, "\x7b\"cost\":5,\"note\":\"a\",\"seed\":-1000000000.0\x7d"),
        (some "bob", some 40000000, "\x7b\x7d")] ∧
    ∀ e ∈ sampleDay.2.ledger.handed, IsClean Limits.standard e ∧
      ∃ m : Accepted, m.Yields Limits.standard e := by
  have hcheck : Config.standard.check = .ok () :=
    (Config.check_eq_ok_iff .standard).2 ⟨by decide +kernel, by decide +kernel⟩
  refine ⟨hcheck, by decide +kernel, fun e he => ?_⟩
  obtain ⟨hclean, m, -, hm⟩ := (exec_clean hcheck _ _ _).2 e he
  exact ⟨hclean, m, hm⟩

end Gateway

end Ingress
