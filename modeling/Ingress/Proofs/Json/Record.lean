import Ingress.Json.Decode
import Ingress.Proofs.Except
import Mathlib

/-!
# Records read from objects

* `Record.Owns` : a part of a record that only one field writes;
* `Record.part_of_absent`, `Record.decoder_of_lookup` : that part after reading an object whose keys
  are distinct: as it was, or what the decoder of the field makes of the object's;
* `Record.Reads`, `Record.decode_ok` : an object that a record can be read from;
* `Record.Keeps`, `Record.Keeps.of_decode` : what no field loses holds of every record that is read, from an
  object or from an array;
* `entries_any` : a map of any values is read as it is.
-/

namespace Ingress.Json

theorem lookup_eq_none_iff {key : String} {fields : Fields} :
    lookup key fields = none ↔ key ∉ fields.map Prod.fst := by
  induction fields with
  | nil => exact iff_of_true rfl List.not_mem_nil
  | cons f rest ih =>
    obtain ⟨k, v⟩ := f
    rw [List.map_cons, List.mem_cons, not_or, ← ih, lookup]
    split
    next heq => exact iff_of_false (Option.some_ne_none v) fun h => h.1 heq
    next hne => exact (and_iff_right hne).symm

theorem mem_of_lookup {key : String} {fields : Fields} {v : Value}
    (h : lookup key fields = some v) : (key, v) ∈ fields := by
  induction fields with
  | nil => cases h
  | cons f rest ih =>
    obtain ⟨k, w⟩ := f
    rw [lookup] at h
    split at h
    next heq => cases h; rw [heq]; exact List.mem_cons_self
    next => exact List.mem_cons_of_mem _ (ih h)

theorem lookup_of_mem {fields : Fields} (hkeys : (fields.map Prod.fst).Nodup) {f : String × Value}
    (h : f ∈ fields) : lookup f.1 fields = some f.2 := by
  induction fields with
  | nil => cases h
  | cons g rest ih =>
    obtain ⟨k, v⟩ := g
    rw [List.map_cons, List.nodup_cons] at hkeys
    unfold lookup
    rcases List.mem_cons.1 h with rfl | hrest
    · exact if_pos rfl
    · have hne : f.1 ≠ k := fun heq => hkeys.1 (List.mem_map.2 ⟨f, hrest, heq⟩)
      exact (if_neg hne).trans (ih hkeys.2 hrest)

/-- Among distinct keys, what is found does not depend on the order. -/
theorem lookup_perm {fields other : Fields} (hkeys : (fields.map Prod.fst).Nodup) (h : fields.Perm other)
    (key : String) : lookup key fields = lookup key other := by
  cases hlookup : lookup key fields with
  | none =>
    have habsent := lookup_eq_none_iff.1 hlookup
    rw [(h.map Prod.fst).mem_iff] at habsent
    exact (lookup_eq_none_iff.2 habsent).symm
  | some v =>
    have hmem := h.mem_iff.1 (mem_of_lookup hlookup)
    exact (lookup_of_mem ((h.map Prod.fst).nodup_iff.1 hkeys) hmem).symm

/-- Look-up after a change of every value that may depend on its key. -/
theorem lookup_map (change : String → Value → Value) (key : String) (fields : Fields) :
    lookup key (fields.map fun f => (f.1, change f.1 f.2)) = (lookup key fields).map (change key) := by
  induction fields with
  | nil => rfl
  | cons f rest ih =>
    obtain ⟨k, v⟩ := f
    rw [List.map_cons, lookup, lookup]
    split
    next heq => rw [heq, Option.map_some]
    next => exact ih

/-- What a field writes that has a decoder. -/
theorem Field.put_of {α β : Type} {f : Field α} {decoder : Decoder β} {set : β → α → α}
    (hf : f.put = fun v a => (decoder v).map (set · a)) {v : Value} {a b : α}
    (h : f.put v a = .ok b) : ∃ x, decoder v = .ok x ∧ b = set x a := by
  rw [hf] at h
  obtain ⟨x, hx, rfl⟩ := exists_of_map h
  exact ⟨x, hx, rfl⟩

theorem Field.put_ok {α β : Type} {f : Field α} {decoder : Decoder β} {set : β → α → α}
    (hf : f.put = fun v a => (decoder v).map (set · a)) {v : Value} {x : β} (h : decoder v = .ok x)
    (a : α) : ∃ b, f.put v a = .ok b := by
  refine ⟨set x a, ?_⟩
  rw [hf]
  dsimp only
  rw [h]
  rfl

namespace Record

variable {α β : Type} (r : Record α) (name : String) (part : α → β)

/-- No field but that of the name writes a part of the record. -/
def Owns : Prop :=
  ∀ f ∈ r.fields, f.name ≠ name → ∀ v a b, f.put v a = .ok b → part b = part a

variable {r name part}

theorem name_of_field? {key : String} {f : Field α} (h : r.field? key = some f) :
    f ∈ r.fields ∧ f.name = key := by
  have hname := List.find?_some h
  exact ⟨List.mem_of_find?_eq_some h, beq_iff_eq.1 hname⟩

/-- Reading one field of an object. -/
theorem putFields_cons {key : String} {v : Value} {rest : Fields} {a b : α}
    (h : r.putFields ((key, v) :: rest) a = .ok b) :
    (r.field? key = none ∧ r.putFields rest a = .ok b) ∨
      ∃ f c, r.field? key = some f ∧ f.put v a = .ok c ∧ r.putFields rest c = .ok b := by
  unfold putFields at h
  split at h
  next f hf =>
    obtain ⟨c, hput, hrest⟩ := exists_of_bind h
    exact .inr ⟨f, c, hf, hput, hrest⟩
  next hnone => exact .inl ⟨hnone, h⟩

/-- A part whose field is not in the object stays as it was. -/
theorem part_of_absent (howns : r.Owns name part) {fields : Fields}
    (habsent : name ∉ fields.map Prod.fst) {a b : α} (h : r.putFields fields a = .ok b) :
    part b = part a := by
  induction fields generalizing a with
  | nil => cases h; rfl
  | cons g rest ih =>
    obtain ⟨key, v⟩ := g
    rw [List.map_cons, List.mem_cons, not_or] at habsent
    rcases putFields_cons h with ⟨-, hrest⟩ | ⟨f, c, hf, hput, hrest⟩
    · exact ih habsent.2 hrest
    · obtain ⟨hmem, hname⟩ := name_of_field? hf
      rw [ih habsent.2 hrest, howns f hmem (hname ▸ Ne.symm habsent.1) v a c hput]

/-- A part whose field is in the object is as that field wrote it. -/
theorem part_of_lookup (howns : r.Owns name part) {field : Field α}
    (hfield : r.field? name = some field) {fields : Fields} (hkeys : (fields.map Prod.fst).Nodup) {v : Value}
    (hv : lookup name fields = some v) {a b : α} (h : r.putFields fields a = .ok b) :
    ∃ c d, field.put v c = .ok d ∧ part b = part d := by
  induction fields generalizing a with
  | nil => cases hv
  | cons g rest ih =>
    obtain ⟨key, w⟩ := g
    rw [List.map_cons, List.nodup_cons] at hkeys
    rw [lookup] at hv
    split at hv
    next heq =>
      cases hv
      subst heq
      rcases putFields_cons h with ⟨hnone, -⟩ | ⟨f, c, hf, hput, hrest⟩
      · rw [hfield] at hnone; cases hnone
      · rw [hfield] at hf
        cases hf
        exact ⟨a, c, hput, part_of_absent howns hkeys.1 hrest⟩
    next hne =>
      rcases putFields_cons h with ⟨-, hrest⟩ | ⟨f, c, -, -, hrest⟩
      · exact ih hkeys.2 hv hrest
      · exact ih hkeys.2 hv hrest

/-- A part that a decoder's field sets is what the decoder makes of the object's field. -/
theorem decoder_of_lookup (howns : r.Owns name part) {field : Field α}
    (hfield : r.field? name = some field) {decoder : Decoder β} {set : β → α → α}
    (hput : field.put = fun v a => (decoder v).map (set · a)) (hset : ∀ x a, part (set x a) = x)
    {fields : Fields} (hkeys : (fields.map Prod.fst).Nodup) {a b : α}
    (h : r.putFields fields a = .ok b) {v : Value} (hv : lookup name fields = some v) :
    decoder v = .ok (part b) := by
  obtain ⟨c, d, hd, hpart⟩ := part_of_lookup howns hfield hkeys hv h
  obtain ⟨x, hx, rfl⟩ := Field.put_of hput hd
  rw [hx, hpart, hset]

/-- A record that is read from an object is what its fields wrote. -/
theorem putFields_of_decode {fields : Fields} {a : α} (h : r.decode (.object fields) = .ok a) :
    r.putFields fields r.blank = .ok a := by
  replace h : r.ofFields fields = .ok a := h
  obtain ⟨b, hput, h⟩ := exists_of_bind h
  split at h
  next => cases h
  next => rw [hput, h]

/-- Whatever an object says of a field of the record can be put into it. -/
def Reads (r : Record α) (fields : Fields) : Prop :=
  ∀ f ∈ fields, ∀ field ∈ r.fields, field.name = f.1 → ∀ a, ∃ b, field.put f.2 a = .ok b

theorem putFields_ok {fields : Fields} (h : r.Reads fields) (a : α) :
    ∃ b, r.putFields fields a = .ok b := by
  induction fields generalizing a with
  | nil => exact ⟨a, rfl⟩
  | cons f rest ih =>
    obtain ⟨key, v⟩ := f
    obtain ⟨hfirst, hrest⟩ := List.forall_mem_cons.1 h
    unfold putFields
    cases hfield : r.field? key with
    | none => exact ih hrest a
    | some field =>
      obtain ⟨hmem, hname⟩ := name_of_field? hfield
      obtain ⟨b, hput⟩ : ∃ b, field.put v a = .ok b := hfirst field hmem hname a
      dsimp only
      rw [hput]
      exact ih hrest b

/-- A record is read from an object that has the fields it requires, and none that cannot be read. -/
theorem decode_ok {fields : Fields} (h : r.Reads fields)
    (hfound : ∀ f ∈ r.fields, f.required = true → ∃ v, lookup f.name fields = some v) :
    ∃ a, r.decode (.object fields) = .ok a := by
  obtain ⟨a, hput⟩ := putFields_ok h r.blank
  have hnone : r.missing? fields = none := by
    unfold missing?
    rw [Option.map_eq_none_iff, List.find?_eq_none]
    intro f hf hmissing
    obtain ⟨hrequired, habsent⟩ := (Bool.and_eq_true _ _).mp hmissing
    obtain ⟨v, hv⟩ := hfound f hf hrequired
    rw [hv] at habsent
    cases habsent
  refine ⟨a, ?_⟩
  show r.ofFields fields = .ok a
  unfold ofFields
  rw [hput, hnone]
  rfl

/-! ## What every record has that is read -/

/-- No field of the record loses a property, whatever it is given. -/
def Keeps (r : Record α) (P : α → Prop) : Prop :=
  ∀ f ∈ r.fields, ∀ v a b, f.put v a = .ok b → P a → P b

namespace Keeps

variable {P : α → Prop} (hkeeps : r.Keeps P)
include hkeeps

theorem putFields {fields : Fields} {a b : α} (h : r.putFields fields a = .ok b) (ha : P a) : P b := by
  induction fields generalizing a with
  | nil => cases h; exact ha
  | cons f rest ih =>
    obtain ⟨key, v⟩ := f
    rcases putFields_cons h with ⟨-, hrest⟩ | ⟨f, c, hf, hput, hrest⟩
    · exact ih hrest ha
    · exact ih hrest (hkeeps f (name_of_field? hf).1 v a c hput ha)

theorem putItems {place : Nat} {fields : List (Field α)} (hfields : ∀ f ∈ fields, f ∈ r.fields)
    {items rest : List Value} {a b : α} (h : r.putItems place fields items a = .ok (b, rest)) (ha : P a) :
    P b := by
  induction fields generalizing place items a with
  | nil => cases h; exact ha
  | cons f fs ih =>
    obtain ⟨hf, hfs⟩ := List.forall_mem_cons.1 hfields
    cases items with
    | nil =>
      unfold Record.putItems at h
      split at h
      · cases h
      · exact ih hfs h ha
    | cons v items =>
      obtain ⟨c, hput, hrest⟩ := exists_of_bind h
      exact ih hfs hrest (hkeeps f hf v a c hput ha)

theorem of_decode {v : Value} {a : α} (h : r.decode v = .ok a) (hblank : P r.blank) : P a := by
  cases v with
  | object fields => exact hkeeps.putFields (putFields_of_decode h) hblank
  | array items =>
    obtain ⟨⟨b, rest⟩, hput, h⟩ := exists_of_bind (show r.ofItems items = .ok a from h)
    dsimp only at h
    split at h
    · cases h
      exact hkeeps.putItems (fun _ hf => hf) hput hblank
    · cases h
  | _ => cases h

end Keeps

end Record

theorem entries_any (fields : Fields) : Decoder.entries Decoder.any fields = .ok fields := by
  induction fields with
  | nil => rfl
  | cons f rest ih =>
    obtain ⟨k, v⟩ := f
    unfold Decoder.entries
    rw [ih]
    rfl

theorem map_any {v : Value} {fields : Fields} (h : Decoder.map .any v = .ok fields) :
    v = .object fields := by
  unfold Decoder.map at h
  split at h
  next => rw [entries_any] at h; cases h; rfl
  next => cases h

end Ingress.Json
