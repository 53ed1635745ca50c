import Ingress.Proofs.Config.Limits
import Ingress.Proofs.Sanitize.Event
import Mathlib

/-!
# Events of valid values

A value that was found valid is sanitized, and an event is read from what is left of it. Nothing stands
in the way but a name of its type that is cut. The event has the kind and the time of the value, and the
beginning of its game id.

* `ofValue_event_iff` : where an event is read from a sanitized object;
* `Describes` : an object against the event that is read from it after texts are cut;
* `ofValue_event` : the events of valid values.
-/

namespace Ingress.Sanitize

open Json Grammar

variable {l : Limits} {nowMs : Int} {fields : Fields} {k : Kind}

/-- What is left of the name of a kind names that kind, or no kind at all. -/
theorem decoder_string_iff :
    (∃ j, Kind.decoder (.string (string l.maxStringLength k.name)) = .ok j) ↔
      k.name.length ≤ l.maxStringLength := by
  rw [← prefixFree_kinds.string_mem_iff (name_mem_kinds k)]
  simp only [Event.decoder_eq_ok_iff]
  constructor
  · rintro ⟨j, hj⟩
    rw [hj]
    exact name_mem_kinds j
  · intro hmem
    obtain ⟨j, -, hj⟩ := List.mem_map.1 hmem
    exact ⟨j, hj.symm⟩

/-- A sanitized object in data is an object still. -/
theorem isObject_topField {v : Value} (h : ∃ data, v = .object data) :
    ∃ data, topField l "data" v = .object data := by
  obtain ⟨data, rfl⟩ := h
  show ∃ data', value l 1 (.object data) = .object data'
  unfold value
  split
  · exact ⟨_, rfl⟩
  · exact ⟨_, rfl⟩

/-- An event is read from a sanitized object if the name of its kind is left. -/
theorem ofValue_event_iff (hkeys : (fields.map Prod.fst).Nodup) (h : IsHeadOf l nowMs fields k)
    (hdata : MayHave fields "data" fun v => ∃ data, v = .object data) :
    (∃ e, Event.ofValue (event l (.object fields)) = .ok e) ↔
      k.name.length ≤ l.maxStringLength := by
  have hleft : ((eventFields l fields).map Prod.fst).Nodup := by
    rw [keys_eventFields]
    exact hkeys
  have hkind : lookup "type" (eventFields l fields) =
    some (.string (string l.maxStringLength k.name)) := lookup_event_of h.kind
  rw [← decoder_string_iff]
  show (∃ e, Event.ofValue (.object (eventFields l fields)) = .ok e) ↔ _
  constructor
  · rintro ⟨e, he⟩
    exact ⟨e.kind, (Event.decoded_of_ofValue hleft he).kind _ hkind⟩
  · rintro ⟨j, hj⟩
    rw [Event.kind_of_decoder hj] at hkind
    obtain ⟨_, htime, n, rfl, -⟩ := h.timestamp
    obtain ⟨_, hgame, id, rfl, -⟩ := h.gameId
    refine Event.ofValue_ok hleft ?_ hkind (lookup_event_of htime) (lookup_event_of hgame) ?_
    · unfold eventFields
      rw [List.forall_mem_map]
      exact h.keys
    · intro w hw
      rw [lookup_event] at hw
      obtain ⟨v, hv, rfl⟩ := Option.map_eq_some_iff.1 hw
      exact isObject_topField (hdata v hv)

/-- An object against the event that is read from it after texts are cut. -/
structure Describes (l : Limits) (fields : Fields) (e : Event) : Prop where
  kind : lookup "type" fields = some (.string e.kind.name)
  timestamp : ∃ n, lookup "timestamp" fields = some (.number n) ∧ e.timestamp = n.toDouble
  gameId : ∃ id, lookup "game_id" fields = some (.string id) ∧
    e.gameId.toList = id.toList.take l.maxStringLength

theorem describes_of_ofValue (hkeys : (fields.map Prod.fst).Nodup) (h : IsHeadOf l nowMs fields k)
    {e : Event} (he : Event.ofValue (event l (.object fields)) = .ok e) : Describes l fields e := by
  have hleft : ((eventFields l fields).map Prod.fst).Nodup := by
    rw [keys_eventFields]
    exact hkeys
  have hdecoded := Event.decoded_of_ofValue hleft he
  obtain ⟨_, htime, n, rfl, -⟩ := h.timestamp
  obtain ⟨_, hgame, id, rfl, -, -, hsafe⟩ := h.gameId
  refine ⟨kind_eq h.kind hdecoded ▸ h.kind, ⟨n, htime, ?_⟩, ⟨id, hgame, ?_⟩⟩
  · exact (Except.ok.inj (hdecoded.timestamp _ (lookup_event_of htime))).symm
  · have hid : string l.maxStringLength id = e.gameId :=
      Except.ok.inj (hdecoded.gameId _ (lookup_event_of hgame))
    rw [← hid]
    exact toList_string_of_printed (fun c hc => isControlCode_of_isIdentifier (hsafe c hc)) _

/-- **The event of a valid value** is read exactly where the name of its type is not cut, and then it has
the kind, the time and the beginning of the game id that the value gives, for a magnitude that is a number. -/
theorem ofValue_event (hl : Limits.config.violations l = []) (hnumber : l.maxMagnitude.isNaN = false)
    {v : Value} (hsorted : v.Sorted) (hvalid : (Validation.validate l nowMs v).isValid = true) :
    ∃ (fields : Fields) (k : Kind) (w : Value), v = .object fields ∧
      lookup "type" fields = some (.string k.name) ∧ event? l v = some w ∧
      ((∃ e, Event.ofValue w = .ok e) ↔ k.name.length ≤ l.maxStringLength) ∧
      ∀ e, Event.ofValue w = .ok e → Describes l fields e := by
  obtain ⟨fields, k, rfl, hhead⟩ := Validation.isHeadOf_of_isValid l nowMs hvalid
  have hkeys := nodup_keys hsorted.1
  have hdata := Validation.isObject_of_isValid l nowMs hvalid
  exact ⟨fields, k, _, rfl, hhead.kind, event?_of_isMagnitude (Limits.isMagnitude hl hnumber) _,
    ofValue_event_iff hkeys hhead hdata, fun e he => describes_of_ofValue hkeys hhead he⟩

/-! ## Texts of nine characters -/

/-- Limits that cut every text to nine characters. -/
def terse : Limits := { Limits.standard with maxStringLength := 9 }

/-- An event of a kind without content. -/
def eventNamed (name id : String) : Value :=
  .object [("data", .object []), ("game_id", .string id), ("timestamp", .number (.ofInt 1700000000)),
    ("type", .string name)]

/-- Both events are valid. Of the first nothing is read, and of the second another game. -/
theorem ofValue_cut : Limits.config.violations terse = [] ∧
    (Validation.validate terse 1700000000000 (eventNamed "game_start" "g")).isValid = true ∧
    ((event? terse (eventNamed "game_start" "g")).map fun w => (Event.ofValue w).isOk) = some false ∧
    (Validation.validate terse 1700000000000 (eventNamed "heartbeat" "tournament-12")).isValid = true ∧
    ((event? terse (eventNamed "heartbeat" "tournament-12")).bind fun w =>
      (Event.ofValue w).toOption.map Event.gameId) = some "tournamen" := by
  decide +kernel

/-- A heartbeat is short enough. -/
theorem ofValue_heartbeat : Limits.config.violations terse = [] ∧ terse.maxMagnitude.isNaN = false ∧
    (eventNamed "heartbeat" "tournament-12").Sorted ∧
    (Validation.validate terse 1700000000000 (eventNamed "heartbeat" "tournament-12")).isValid = true ∧
    ∃ w e, event? terse (eventNamed "heartbeat" "tournament-12") = some w ∧ Event.ofValue w = .ok e ∧
      e.kind = .heartbeat := by
  have hlimits : Limits.config.violations terse = [] := by decide +kernel
  have hnumber : terse.maxMagnitude.isNaN = false := by decide +kernel
  have hsorted : (eventNamed "heartbeat" "tournament-12").Sorted := by
    refine ⟨?_, sorted_empty, trivial, trivial, trivial, trivial⟩
    unfold KeysSorted
    decide +kernel
  have hvalid : (Validation.validate terse 1700000000000
    (eventNamed "heartbeat" "tournament-12")).isValid = true := by decide +kernel
  obtain ⟨_, k, w, heq, hkind, hleft, hread, hdescribes⟩ :=
    ofValue_event hlimits hnumber hsorted hvalid
  cases heq
  have hname : k.name = "heartbeat" := by simpa [lookup] using hkind.symm
  obtain ⟨e, he⟩ := hread.2 (by rw [hname]; decide)
  have hbeat : e.kind.name = "heartbeat" := by simpa [lookup] using (hdescribes e he).kind.symm
  exact ⟨hlimits, hnumber, hsorted, hvalid, w, e, hleft, he, Event.name_injective hbeat⟩

end Ingress.Sanitize
