import Ingress.Event.Basic
import Ingress.Proofs.Json.Record
import Mathlib

/-!
# Events read from objects

* `Leaves`, `leaves_of_put` : what a field of an event does not write;
* `Decoded`, `decoded_of_ofValue` : an event against the object that it was read from;
* `kind_of_decoder`, `name_injective` : kinds and their names;
* `Decoded.unique`, `ofValue_of_decoded` : an object says what one event is, which is read from it;
* `ofValue_ok` : an object that an event is read from.
-/

namespace Ingress.Event

open Json

/-- A field of an event leaves the parts of the other fields as they were. -/
structure Leaves (name : String) (a b : Event) : Prop where
  kind : name ≠ "type" → b.kind = a.kind
  timestamp : name ≠ "timestamp" → b.timestamp = a.timestamp
  gameId : name ≠ "game_id" → b.gameId = a.gameId
  data : name ≠ "data" → b.data = a.data
  client : name ≠ "client_id" → b.client = a.client
  receivedAt : name ≠ "received_at" → b.receivedAt = a.receivedAt

theorem leaves_of_put {f : Json.Field Event} (hf : f ∈ record.fields) {v : Value} {a b : Event}
    (h : f.put v a = .ok b) : Leaves f.name a b := by
  simp only [record, List.mem_cons, List.not_mem_nil, or_false] at hf
  rcases hf with rfl | rfl | rfl | rfl | rfl | rfl
  all_goals
    obtain ⟨_, -, rfl⟩ := Field.put_of rfl h
    constructor
  -- a field writes its own part, and the others stay as they were
  all_goals first | exact fun _ => rfl | exact fun hne => absurd rfl hne

/-- An event against the object that it was read from. -/
structure Decoded (fields : Fields) (e : Event) : Prop where
  kind : ∀ v, lookup "type" fields = some v → Kind.decoder v = .ok e.kind
  timestamp : ∀ v, lookup "timestamp" fields = some v → Decoder.double v = .ok e.timestamp
  gameId : ∀ v, lookup "game_id" fields = some v → Decoder.string v = .ok e.gameId
  data : ∀ v, lookup "data" fields = some v → v = .object e.data
  noData : "data" ∉ fields.map Prod.fst → e.data = []
  client : ∀ v, lookup "client_id" fields = some v → Decoder.optional .string v = .ok e.client
  noClient : "client_id" ∉ fields.map Prod.fst → e.client = none
  receivedAt : ∀ v, lookup "received_at" fields = some v → Decoder.optional .instant v = .ok e.receivedAt
  notReceived : "received_at" ∉ fields.map Prod.fst → e.receivedAt = none

/-- An event that is read from an object with distinct keys. -/
theorem decoded_of_ofValue {fields : Fields} (hkeys : (fields.map Prod.fst).Nodup) {e : Event}
    (h : ofValue (.object fields) = .ok e) : Decoded fields e := by
  have hput := Record.putFields_of_decode h
  have hkind : record.Owns "type" kind := fun _ hf hne _ _ _ h => (leaves_of_put hf h).kind hne
  have htime : record.Owns "timestamp" timestamp :=
    fun _ hf hne _ _ _ h => (leaves_of_put hf h).timestamp hne
  have hid : record.Owns "game_id" gameId := fun _ hf hne _ _ _ h => (leaves_of_put hf h).gameId hne
  have hdata : record.Owns "data" data := fun _ hf hne _ _ _ h => (leaves_of_put hf h).data hne
  have hclient : record.Owns "client_id" client := fun _ hf hne _ _ _ h => (leaves_of_put hf h).client hne
  have hreceived : record.Owns "received_at" receivedAt :=
    fun _ hf hne _ _ _ h => (leaves_of_put hf h).receivedAt hne
  exact
    { kind := fun _ => Record.decoder_of_lookup hkind rfl rfl (fun _ _ => rfl) hkeys hput
      timestamp := fun _ => Record.decoder_of_lookup htime rfl rfl (fun _ _ => rfl) hkeys hput
      gameId := fun _ => Record.decoder_of_lookup hid rfl rfl (fun _ _ => rfl) hkeys hput
      data := fun _ hv =>
        map_any (Record.decoder_of_lookup hdata rfl rfl (fun _ _ => rfl) hkeys hput hv)
      noData := fun habsent => Record.part_of_absent hdata habsent hput
      client := fun _ => Record.decoder_of_lookup hclient rfl rfl (fun _ _ => rfl) hkeys hput
      noClient := fun habsent => Record.part_of_absent hclient habsent hput
      receivedAt := fun _ => Record.decoder_of_lookup hreceived rfl rfl (fun _ _ => rfl) hkeys hput
      notReceived := fun habsent => Record.part_of_absent hreceived habsent hput }

/-! ## Names of kinds -/

theorem kind_of_decoder {name : String} {k : Kind} (h : Kind.decoder (.string name) = .ok k) :
    name = k.name := by
  replace h : Decoder.variantNamed (Kind.all.map fun k => (k.name, k)) name = .ok k := h
  unfold Decoder.variantNamed at h
  split at h
  next found j hfound =>
    cases h
    have hname := List.find?_some hfound
    obtain ⟨i, -, heq⟩ := List.mem_map.1 (List.mem_of_find?_eq_some hfound)
    cases heq
    exact (beq_iff_eq.1 hname).symm
  next => cases h

theorem name_injective : Function.Injective Kind.name := by
  intro j k h
  have hfound := Kind.ofName?_name j
  rw [h, Kind.ofName?_name] at hfound
  exact (Option.some.inj hfound).symm

theorem decoder_name (k : Kind) : Kind.decoder (.string k.name) = .ok k := by
  cases k <;> decide +kernel

/-- The decoder of kinds reads their names, and no other text. -/
theorem decoder_eq_ok_iff {name : String} {k : Kind} :
    Kind.decoder (.string name) = .ok k ↔ name = k.name :=
  ⟨kind_of_decoder, fun h => h ▸ decoder_name k⟩

/-! ## Objects that are events -/

/-- An object has the fields that an event cannot be without. -/
structure Complete (fields : Fields) : Prop where
  kind : ∃ v, lookup "type" fields = some v
  timestamp : ∃ v, lookup "timestamp" fields = some v
  gameId : ∃ v, lookup "game_id" fields = some v

variable {fields : Fields}

/-- What is read for a part that an object has, or for one that it may lack. -/
theorem part_unique {α : Type} {name : String} {decoder : Decoder α} {x y z : α}
    (hx : ∀ v, lookup name fields = some v → decoder v = .ok x)
    (hy : ∀ v, lookup name fields = some v → decoder v = .ok y)
    (h : (∃ v, lookup name fields = some v) ∨
      ((name ∉ fields.map Prod.fst → x = z) ∧ (name ∉ fields.map Prod.fst → y = z))) : x = y := by
  have hfound {v : Value} (hv : lookup name fields = some v) : x = y :=
    Except.ok.inj ((hx v hv).symm.trans (hy v hv))
  rcases h with ⟨v, hv⟩ | ⟨hx', hy'⟩
  · exact hfound hv
  · cases hlookup : lookup name fields with
    | none =>
      have habsent := lookup_eq_none_iff.1 hlookup
      rw [hx' habsent, hy' habsent]
    | some v => exact hfound hlookup

theorem Decoded.decoder_data {e : Event} (h : Decoded fields e) (v : Value)
    (hv : lookup "data" fields = some v) : Decoder.map .any v = .ok e.data := by
  rw [h.data v hv]
  exact entries_any e.data

/-- An object says of one event at most what it is. -/
theorem Decoded.unique (hcomplete : Complete fields) {a b : Event} (ha : Decoded fields a)
    (hb : Decoded fields b) : a = b := by
  have hkind := part_unique (z := a.kind) ha.kind hb.kind (.inl hcomplete.kind)
  have htime := part_unique (z := a.timestamp) ha.timestamp hb.timestamp (.inl hcomplete.timestamp)
  have hid := part_unique (z := a.gameId) ha.gameId hb.gameId (.inl hcomplete.gameId)
  have hdata := part_unique ha.decoder_data hb.decoder_data (.inr ⟨ha.noData, hb.noData⟩)
  have hclient := part_unique ha.client hb.client (.inr ⟨ha.noClient, hb.noClient⟩)
  have hreceived := part_unique ha.receivedAt hb.receivedAt (.inr ⟨ha.notReceived, hb.notReceived⟩)
  cases a
  cases b
  simp only at hkind htime hid hdata hclient hreceived
  rw [hkind, htime, hid, hdata, hclient, hreceived]

/-- An event is read from an object whose fields can each be read. -/
theorem exists_of_readable (hkeys : (fields.map Prod.fst).Nodup) (hcomplete : Complete fields)
    (hkind : ∀ v, lookup "type" fields = some v → ∃ k, Kind.decoder v = .ok k)
    (htime : ∀ v, lookup "timestamp" fields = some v → ∃ t, Decoder.double v = .ok t)
    (hid : ∀ v, lookup "game_id" fields = some v → ∃ id, Decoder.string v = .ok id)
    (hdata : ∀ v, lookup "data" fields = some v → ∃ data, v = .object data)
    (hclient : ∀ v, lookup "client_id" fields = some v → ∃ c, Decoder.optional .string v = .ok c)
    (hreceived : ∀ v, lookup "received_at" fields = some v → ∃ t, Decoder.optional .instant v = .ok t) :
    ∃ e, ofValue (.object fields) = .ok e := by
  refine Record.decode_ok (fun f hf field hfield hname a => ?_) fun field hfield hrequired => ?_
  · have hlookup := lookup_of_mem hkeys hf
    rw [← hname] at hlookup
    simp only [record, List.mem_cons, List.not_mem_nil, or_false] at hfield
    rcases hfield with rfl | rfl | rfl | rfl | rfl | rfl
    · obtain ⟨k, hk⟩ := hkind f.2 hlookup
      exact Field.put_ok rfl hk a
    · obtain ⟨t, ht⟩ := htime f.2 hlookup
      exact Field.put_ok rfl ht a
    · obtain ⟨id, hid⟩ := hid f.2 hlookup
      exact Field.put_ok rfl hid a
    · obtain ⟨data, hv⟩ := hdata f.2 hlookup
      exact Field.put_ok rfl (show Decoder.map .any f.2 = .ok data from hv ▸ entries_any data) a
    · obtain ⟨c, hc⟩ := hclient f.2 hlookup
      exact Field.put_ok rfl hc a
    · obtain ⟨t, ht⟩ := hreceived f.2 hlookup
      exact Field.put_ok rfl ht a
  · simp only [record, List.mem_cons, List.not_mem_nil, or_false] at hfield
    rcases hfield with rfl | rfl | rfl | rfl | rfl | rfl
    · exact hcomplete.kind
    · exact hcomplete.timestamp
    · exact hcomplete.gameId
    all_goals cases hrequired

/-- The event that an object says is read from it. -/
theorem ofValue_of_decoded (hkeys : (fields.map Prod.fst).Nodup) (hcomplete : Complete fields) {e : Event}
    (h : Decoded fields e) : ofValue (.object fields) = .ok e := by
  obtain ⟨read, hread⟩ := exists_of_readable hkeys hcomplete (fun v hv => ⟨_, h.kind v hv⟩)
    (fun v hv => ⟨_, h.timestamp v hv⟩) (fun v hv => ⟨_, h.gameId v hv⟩) (fun v hv => ⟨_, h.data v hv⟩)
    (fun v hv => ⟨_, h.client v hv⟩) (fun v hv => ⟨_, h.receivedAt v hv⟩)
  rw [hread, (decoded_of_ofValue hkeys hread).unique hcomplete h]

/-- An event is read from the fields that a client sends, if each is of its type. -/
theorem ofValue_ok (hkeys : (fields.map Prod.fst).Nodup)
    (hclient : ∀ f ∈ fields, f.1 ∈ ["type", "timestamp", "game_id", "data"]) {k : Kind} {n : Number}
    {id : String} (hkind : lookup "type" fields = some (.string k.name))
    (htime : lookup "timestamp" fields = some (.number n))
    (hid : lookup "game_id" fields = some (.string id))
    (hdata : ∀ v, lookup "data" fields = some v → ∃ data, v = .object data) :
    ∃ e, ofValue (.object fields) = .ok e := by
  refine exists_of_readable hkeys ⟨⟨_, hkind⟩, ⟨_, htime⟩, ⟨_, hid⟩⟩ (fun v hv => ⟨k, ?_⟩)
    (fun v hv => ⟨n.toDouble, ?_⟩) (fun v hv => ⟨id, ?_⟩) hdata (fun v hv => ?_) fun v hv => ?_
  · cases hkind.symm.trans hv
    exact decoder_name k
  · cases htime.symm.trans hv
    rfl
  · cases hid.symm.trans hv
    rfl
  -- what the gateway sets is not among what a client sends
  · exact absurd (hclient _ (mem_of_lookup hv)) (show "client_id" ∉ _ by decide)
  · exact absurd (hclient _ (mem_of_lookup hv)) (show "received_at" ∉ _ by decide)

end Ingress.Event
