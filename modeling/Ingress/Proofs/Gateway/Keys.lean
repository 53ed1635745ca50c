import Ingress.Proofs.Gateway.Clean
import Ingress.Proofs.Sanitize.Keys
import Mathlib

/-!
# The keys of events are those of their texts

Texts are cleaned before an event is taken, but keys are taken over as they came, if the limits allow them.

* `GivesKey` : the data of a text has the key, within the limits;
* `Yields.carriesKeys` : the event of a message has the keys of its text;
* `acceptedTexts` : the texts of the accepted messages of a run;
* `exec_keys` : an event with a control character in a key was taken if and only if some accepted text
  gives such a key.
-/

namespace Ingress

open Sanitize

/-- The data of a text has the key, neither too long nor too deep nor cut off with its place. -/
def GivesKey (l : Limits) (text key : String) : Prop :=
  ∃ fields data, Json.parse? text = some (.object fields) ∧
    Json.lookup "data" fields = some data ∧ KeepsKey l data 1 key

/-- At any depth, the data of an event has the keys that its text gives. -/
def CarriesKeys (l : Limits) (text : String) (e : Event) : Prop :=
  ∀ key, HasKey (.object e.data) 1 key ↔ GivesKey l text key

namespace Gateway

/-- The event of a message has the keys that its text gives. -/
theorem Accepted.Yields.carriesKeys {l : Limits} {m : Accepted} {e : Event} (h : m.Yields l e) :
    CarriesKeys l m.text e := by
  obtain ⟨-, v, read, hparse, hvalid, hread, rfl⟩ := h
  intro key
  obtain ⟨fields, k, rfl, -⟩ := Validation.isHeadOf_of_isValid l m.time hvalid
  have hkeys : ((eventFields l fields).map Prod.fst).Nodup := by
    rw [keys_eventFields]
    exact Json.nodup_keys (Json.parse?_sorted hparse).1
  refine (hasKey_data_iff (Event.decoded_of_ofValue hkeys hread)).trans ⟨?_, ?_⟩
  · rintro ⟨data, hdata, hkeep⟩
    exact ⟨fields, data, hparse, hdata, hkeep⟩
  · rintro ⟨fields', data, hparse', hdata, hkeep⟩
    cases hparse.symm.trans hparse'
    exact ⟨data, hdata, hkeep⟩

/-! ## Accepted texts -/

/-- The text of the message of an action, if there is one and it is accepted. -/
def takenTexts (g : Gateway) (x : Action) : List String :=
  if (g.act x).1.any fun y => y.outcome == .accepted then x.text?.toList else []

/-- The texts of the messages of a run that are accepted, in order. -/
def acceptedTexts (g : Gateway) : List Action → List String
  | [] => []
  | x :: rest => g.takenTexts x ++ (g.act x).2.acceptedTexts rest

theorem takenTexts_eq (g : Gateway) (x : Action) :
    g.takenTexts x = (g.acceptedBy x).map Accepted.text := by
  obtain ⟨b, rfl⟩ | ⟨client, outcome, hexchange, -⟩ := g.act_answers x
  · rfl
  · unfold takenTexts acceptedBy
    rw [hexchange]
    cases outcome <;> simp [Function.comp_def]

theorem acceptedTexts_eq (actions : List Action) : ∀ g : Gateway,
    g.acceptedTexts actions = (g.acceptedIn actions).map Accepted.text := by
  induction actions with
  | nil => exact fun _ => rfl
  | cons x rest ih =>
    intro g
    rw [acceptedTexts, acceptedIn, takenTexts_eq, ih, List.map_append]

/-! ## Every run -/

/-- A key with a control character. -/
def IsUnsafeKey (key : String) : Prop := ∃ c ∈ key.toList, IsUnsafe c

theorem exists_unsafeKey_iff {l : Limits} {texts : List String} {es : List Event}
    (h : List.Forall₂ (CarriesKeys l) texts es) :
    (∃ e ∈ es, ∃ key, HasKey (.object e.data) 1 key ∧ IsUnsafeKey key) ↔
      ∃ text ∈ texts, ∃ key, GivesKey l text key ∧ IsUnsafeKey key := by
  induction h with
  | nil =>
    exact iff_of_false (fun ⟨_, he, _⟩ => List.not_mem_nil he) fun ⟨_, ht, _⟩ => List.not_mem_nil ht
  | cons hcarries _ ih =>
    rw [List.exists_mem_cons_iff, List.exists_mem_cons_iff, ih]
    exact or_congr_left (exists_congr fun key => and_congr_left' (hcarries key))

/-- **Events have the keys of their texts**: the events that are taken in a run are those of its accepted
texts, each has the keys that its text gives, and so has every event that a handler is given. An event
with a control character in a key is taken if and only if some accepted text gives such a key. -/
theorem exec_keys (c : Gateway.Config) (handlers : Aggregator.Handlers) (clock : Int)
    (actions : List Action) :
    List.Forall₂ (CarriesKeys c.limits) ((build c handlers clock).acceptedTexts actions)
        ((build c handlers clock).exec actions).2.aggregator.contents ∧
      (∀ e ∈ ((build c handlers clock).exec actions).2.ledger.handed,
        ∃ text ∈ (build c handlers clock).acceptedTexts actions, CarriesKeys c.limits text e) ∧
      ((∃ e ∈ ((build c handlers clock).exec actions).2.aggregator.contents, ∃ key,
          HasKey (.object e.data) 1 key ∧ IsUnsafeKey key) ↔
        ∃ text ∈ (build c handlers clock).acceptedTexts actions, ∃ key,
          GivesKey c.limits text key ∧ IsUnsafeKey key) := by
  obtain ⟨htaken, hgiven⟩ := exec_yields c handlers clock actions
  have hkeys : List.Forall₂ (CarriesKeys c.limits) ((build c handlers clock).acceptedTexts actions)
      ((build c handlers clock).exec actions).2.aggregator.contents := by
    rw [acceptedTexts_eq, List.forall₂_map_left_iff]
    exact htaken.imp fun _ _ h => h.carriesKeys
  refine ⟨hkeys, fun e he => ?_, exists_unsafeKey_iff hkeys⟩
  obtain ⟨m, hm, hyields⟩ := hgiven e he
  rw [acceptedTexts_eq]
  exact ⟨m.text, List.mem_map_of_mem hm, hyields.carriesKeys⟩

/-- An action with a NUL in a key, and time for a batch. -/
def sampleKey : List Exchange × Gateway :=
  (build .standard ⟨some ⟨"keeper", .keep, fun _ => .atOnce⟩, []⟩ 0).exec
    [.background .start,
      .message "alice" ("\x7b\"type\":\"action\",\"timestamp\":0,\"game_id\":\"g\"," ++
        "\"data\":\x7b\"a\\u0000b\":1\x7d\x7d"),
      .background .advance, .background (.pass 100), .background .advance, .background .conclude]

/-- The limits of a configuration that passes its check do not keep control characters out of the keys that
handlers are given. -/
theorem sampleKey_unsafe : Config.standard.check = .ok () ∧
    sampleKey.1.map Exchange.outcome = [.accepted] ∧
    sampleKey.2.ledger.handed.map (fun e => (Json.Value.object e.data).render) =
      ["\x7b\"a\\u0000b\":1\x7d"] ∧
    ¬ ∀ e ∈ sampleKey.2.ledger.handed, ∀ key, HasKey (.object e.data) 1 key → ¬ IsUnsafeKey key := by
  have hcheck : Config.standard.check = .ok () :=
    (Config.check_eq_ok_iff .standard).2 ⟨by decide +kernel, by decide +kernel⟩
  have hkeys : sampleKey.2.ledger.handed.map (fun e => e.data.map Prod.fst) = [["a\x00b"]] := by
    decide +kernel
  refine ⟨hcheck, by decide +kernel, by decide +kernel, fun hsafe => ?_⟩
  obtain ⟨e, he, hdata⟩ := List.mem_map.1 (hkeys ▸ List.mem_singleton_self ["a\x00b"])
  have hkey : HasKey (.object e.data) 1 "a\x00b" :=
    ⟨e.data, 1, .here _ _, hdata ▸ List.mem_singleton_self _⟩
  exact hsafe e he _ hkey ⟨'\x00', by decide, by decide, by decide, by decide⟩

end Gateway

end Ingress
