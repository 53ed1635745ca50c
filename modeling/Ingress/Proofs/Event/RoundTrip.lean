import Ingress.Proofs.Event
import Ingress.Proofs.Json.Number
import Ingress.Proofs.Json.Sorted
import Ingress.Proofs.Time.Rfc3339
import Mathlib

/-!
# Events from their encodings

An encoding leaves out the parts that are empty and writes no other number than a double, while integers,
`null`, kinds as objects and arrays of fields are read as well. What is read from any of these has an
encoding that leads back to it.

* `nodup_keys_toFields`, `lookup_data`, `lookup_client`, `lookup_receivedAt` : the fields of an encoding;
* `Encodable` : the events that have a JSON value; `encodable_of_ofValue`, no other is read;
* `RoundTrips`, `ofValue_roundTrips` : an event is read back from its fields, in whatever order they stand.
-/

namespace Ingress.Event

open Json

variable {e : Event} {fields : Fields}

/-! ## Encodings -/

theorem nodup_keys_toFields (e : Event) : (e.toFields.map Prod.fst).Nodup := by
  unfold toFields
  cases e.data.isEmpty <;> cases e.client <;> cases e.receivedAt <;> simp

theorem lookup_data (e : Event) :
    lookup "data" e.toFields = if e.data.isEmpty then none else some (.object e.data) := by
  unfold toFields
  cases e.data.isEmpty <;> cases e.client <;> cases e.receivedAt <;> rfl

theorem lookup_client (e : Event) : lookup "client_id" e.toFields = e.client.map .string := by
  unfold toFields
  cases e.data.isEmpty <;> cases e.client <;> cases e.receivedAt <;> rfl

theorem lookup_receivedAt (e : Event) :
    lookup "received_at" e.toFields = e.receivedAt.map fun t => .string t.render := by
  unfold toFields
  cases e.data.isEmpty <;> cases e.client <;> cases e.receivedAt <;> rfl

/-! ## Events that have a JSON value -/

/-- The timestamp is a number, and the gateway received the event at an instant that there is. -/
structure Encodable (e : Event) : Prop where
  timestamp : e.timestamp.isFinite = true
  receivedAt : ∀ t, e.receivedAt = some t → t.Representable

theorem decoder_ofDouble {d : Double} (h : d.isFinite = true) : Decoder.double (.ofDouble d) = .ok d := by
  unfold Value.ofDouble Number.ofDouble?
  rw [dif_pos h]
  rfl

theorem decoder_render {t : Instant} (h : t.Representable) :
    Decoder.optional .instant (.string t.render) = .ok (some t) := by
  unfold Decoder.optional Decoder.instant
  dsimp only
  rw [Instant.parse_render_iff.2 h]
  rfl

/-- The fields of an event say what it is. -/
theorem decoded_of_lookup (h : e.Encodable) (hfields : ∀ key, lookup key fields = lookup key e.toFields) :
    Decoded fields e where
  kind v hv := by
    rw [hfields] at hv
    cases hv
    exact decoder_name e.kind
  timestamp v hv := by
    rw [hfields] at hv
    cases hv
    exact decoder_ofDouble h.timestamp
  gameId v hv := by
    rw [hfields] at hv
    cases hv
    rfl
  data v hv := by
    rw [hfields, lookup_data] at hv
    split at hv <;> cases hv
    rfl
  noData habsent := by
    have hnone := lookup_eq_none_iff.2 habsent
    rw [hfields, lookup_data] at hnone
    split at hnone
    · next hempty => exact List.isEmpty_iff.1 hempty
    · cases hnone
  client v hv := by
    rw [hfields, lookup_client] at hv
    obtain ⟨c, hc, rfl⟩ := Option.map_eq_some_iff.1 hv
    rw [hc]
    rfl
  noClient habsent := by
    have hnone := lookup_eq_none_iff.2 habsent
    rw [hfields, lookup_client] at hnone
    exact Option.map_eq_none_iff.1 hnone
  receivedAt v hv := by
    rw [hfields, lookup_receivedAt] at hv
    obtain ⟨t, ht, rfl⟩ := Option.map_eq_some_iff.1 hv
    rw [ht]
    exact decoder_render (h.receivedAt t ht)
  notReceived habsent := by
    have hnone := lookup_eq_none_iff.2 habsent
    rw [hfields, lookup_receivedAt] at hnone
    exact Option.map_eq_none_iff.1 hnone

theorem complete_of_lookup (hfields : ∀ key, lookup key fields = lookup key e.toFields) : Complete fields :=
  ⟨⟨_, hfields "type"⟩, ⟨_, hfields "timestamp"⟩, ⟨_, hfields "game_id"⟩⟩

/-! ## Events that are read -/

theorem isFinite_of_decoder {v : Value} {d : Double} (h : Decoder.double v = .ok d) : d.isFinite = true := by
  cases v with
  | number n =>
    cases h
    exact n.isFinite_toDouble
  | _ => cases h

theorem representable_of_instant {v : Value} {t : Instant} (h : Decoder.instant v = .ok t) :
    t.Representable := by
  unfold Decoder.instant at h
  split at h
  · next s =>
    cases hparse : Instant.parse s with
    | error err => rw [hparse] at h; cases h
    | ok read =>
      rw [hparse] at h
      cases h
      exact Instant.representable_of_parse hparse
  · cases h

theorem representable_of_optional {v : Value} {received : Option Instant}
    (h : Decoder.optional .instant v = .ok received) (t : Instant) (ht : received = some t) :
    t.Representable := by
  subst ht
  unfold Decoder.optional at h
  split at h
  · cases h
  · obtain ⟨read, hread, hsome⟩ := exists_of_map h
    cases hsome
    exact representable_of_instant hread

/-- No field of an event makes it one without a JSON value. -/
theorem keeps_encodable : record.Keeps Encodable := by
  intro f hf v a b h ha
  simp only [record, List.mem_cons, List.not_mem_nil, or_false] at hf
  rcases hf with rfl | rfl | rfl | rfl | rfl | rfl
  · obtain ⟨_, -, rfl⟩ := Field.put_of rfl h
    exact ⟨ha.timestamp, ha.receivedAt⟩
  · obtain ⟨t, ht, rfl⟩ := Field.put_of rfl h
    exact ⟨isFinite_of_decoder ht, ha.receivedAt⟩
  · obtain ⟨_, -, rfl⟩ := Field.put_of rfl h
    exact ⟨ha.timestamp, ha.receivedAt⟩
  · obtain ⟨_, -, rfl⟩ := Field.put_of rfl h
    exact ⟨ha.timestamp, ha.receivedAt⟩
  · obtain ⟨_, -, rfl⟩ := Field.put_of rfl h
    exact ⟨ha.timestamp, ha.receivedAt⟩
  · obtain ⟨received, hreceived, rfl⟩ := Field.put_of rfl h
    exact ⟨ha.timestamp, representable_of_optional hreceived⟩

theorem encodable_of_ofValue {v : Value} (h : ofValue v = .ok e) : e.Encodable :=
  keeps_encodable.of_decode h ⟨rfl, fun t ht => by cases ht⟩

/-! ## Round trips -/

/-- An event is read back from its JSON value, and from the same fields in any other order, such as that of
their names. -/
structure RoundTrips (e : Event) : Prop where
  ofValue_toValue : ofValue e.toValue = .ok e
  reordered : ∀ fields : Fields, fields.Perm e.toFields → ofValue (.object fields) = .ok e

theorem Encodable.roundTrips (h : e.Encodable) : e.RoundTrips := by
  have hread (fields : Fields) (hperm : fields.Perm e.toFields) : ofValue (.object fields) = .ok e := by
    have hkeys := (hperm.map Prod.fst).nodup_iff.2 (nodup_keys_toFields e)
    have hfields := lookup_perm hkeys hperm
    exact ofValue_of_decoded hkeys (complete_of_lookup hfields) (decoded_of_lookup h hfields)
  exact ⟨hread e.toFields (List.Perm.refl _), hread⟩

/-- **Encodings are read back.** Every event that has a JSON value is read from it, and so is every event that
is read from any value at all. -/
theorem ofValue_roundTrips : (∀ e : Event, e.Encodable → e.RoundTrips) ∧
    ∀ (v : Value) (e : Event), ofValue v = .ok e → e.RoundTrips :=
  ⟨fun _ h => h.roundTrips, fun _ _ h => (encodable_of_ofValue h).roundTrips⟩

/-- A played hand whose data has a key that is a field of events too. -/
def playedHand : Event :=
  { kind := .handPlayed, timestamp := .ofNat 3, gameId := "g", data := [("type", .string "pair")],
    client := some "c", receivedAt := some ⟨1700000000, 500⟩ }

/-- A heartbeat as an array, its kind an object and its timestamp an integer. -/
def listedHeartbeat : Value :=
  .array [.object [("heartbeat", .null)], .number (.ofInt 3), .string "g", .object [], .null]

theorem playedHand_roundTrips : playedHand.Encodable ∧ playedHand.RoundTrips ∧
    ∃ e, ofValue listedHeartbeat = .ok e ∧ e.kind = .heartbeat ∧ e.timestamp = .ofNat 3 ∧ e.RoundTrips := by
  have hencodable : playedHand.Encodable :=
    ⟨by decide +kernel, fun t ht => by cases ht; exact ⟨by decide, by decide, by decide +kernel⟩⟩
  have hread : ofValue listedHeartbeat = .ok ⟨.heartbeat, .ofInt 3, "g", [], none, none⟩ := rfl
  exact ⟨hencodable, ofValue_roundTrips.1 _ hencodable, _, hread, rfl, rfl, ofValue_roundTrips.2 _ _ hread⟩

end Ingress.Event
