import Ingress.Json.Parser
import Mathlib

/-!
# Objects of a text have their keys in order

* `keysSorted_insertField` : a field that is put into sorted fields leaves them sorted;
* `sortFields_perm` : fields with distinct keys are sorted without loss;
* `parse?_sorted` : every object of a text is sorted, at every depth;
* `nodup_keys` : so no key of it occurs twice.
-/

namespace Ingress.Json

theorem mem_insertField {key : String} {value : Value} {fields : Fields} {f : String × Value}
    (h : f ∈ insertField key value fields) : f = (key, value) ∨ f ∈ fields := by
  induction fields with
  | nil => exact .inl (List.mem_singleton.1 h)
  | cons g rest ih =>
    obtain ⟨k, v⟩ := g
    unfold insertField at h
    split at h
    next => exact (List.mem_cons.1 h).imp_right (List.mem_cons_of_mem _)
    next =>
      split at h
      next => exact List.mem_cons.1 h
      next =>
        rcases List.mem_cons.1 h with rfl | hrest
        · exact .inr List.mem_cons_self
        · exact (ih hrest).imp_right (List.mem_cons_of_mem _)

theorem keysSorted_cons {k : String} {v : Value} {rest : Fields} :
    KeysSorted ((k, v) :: rest) ↔ (∀ f ∈ rest, k < f.1) ∧ KeysSorted rest := by
  unfold KeysSorted
  rw [List.map_cons, List.pairwise_cons, List.forall_mem_map]

/-- A field that is put into sorted fields leaves them sorted. -/
theorem keysSorted_insertField {key : String} {value : Value} {fields : Fields}
    (h : KeysSorted fields) : KeysSorted (insertField key value fields) := by
  induction fields with
  | nil => exact List.pairwise_singleton _ _
  | cons g rest ih =>
    obtain ⟨k, v⟩ := g
    obtain ⟨hfirst, hrest⟩ := keysSorted_cons.1 h
    unfold insertField
    split
    next heq => subst heq; exact keysSorted_cons.2 ⟨hfirst, hrest⟩
    next hne =>
      split
      next hlt =>
        refine keysSorted_cons.2 ⟨fun f hf => ?_, h⟩
        rcases List.mem_cons.1 hf with rfl | hf
        · exact hlt
        · exact hlt.trans (hfirst f hf)
      next hge =>
        have hgt : k < key := lt_of_le_of_ne (not_lt.1 hge) (Ne.symm hne)
        refine keysSorted_cons.2 ⟨fun f hf => ?_, ih hrest⟩
        rcases mem_insertField hf with rfl | hf
        · exact hgt
        · exact hfirst f hf

theorem nodup_keys {fields : Fields} (h : KeysSorted fields) : (fields.map Prod.fst).Nodup :=
  List.Pairwise.imp (fun hlt => ne_of_lt hlt) h

/-- A field under a new key is one more field. -/
theorem insertField_perm {key : String} (value : Value) {fields : Fields}
    (h : key ∉ fields.map Prod.fst) : (insertField key value fields).Perm ((key, value) :: fields) := by
  induction fields with
  | nil => exact List.Perm.refl _
  | cons g rest ih =>
    obtain ⟨k, v⟩ := g
    rw [List.map_cons, List.mem_cons, not_or] at h
    unfold insertField
    rw [if_neg h.1]
    split
    · exact List.Perm.refl _
    · exact ((ih h.2).cons _).trans (List.Perm.swap _ _ _)

theorem foldl_insertField_perm (fields : Fields) : ∀ {sorted : Fields},
    ((sorted ++ fields).map Prod.fst).Nodup →
      (fields.foldl (fun acc f => insertField f.1 f.2 acc) sorted).Perm (sorted ++ fields) := by
  induction fields with
  | nil =>
    intro sorted _
    rw [List.append_nil]
    exact List.Perm.refl _
  | cons f rest ih =>
    intro sorted h
    have hfront : (sorted ++ f :: rest).Perm (f :: sorted ++ rest) := List.perm_middle
    have hnodup := (hfront.map Prod.fst).nodup_iff.1 h
    have hnew : f.1 ∉ sorted.map Prod.fst := by
      rw [List.cons_append, List.map_cons, List.nodup_cons, List.map_append, List.mem_append] at hnodup
      exact fun hmem => hnodup.1 (.inl hmem)
    have hinsert := (insertField_perm f.2 hnew).append_right rest
    exact (ih ((hinsert.map Prod.fst).nodup_iff.2 hnodup)).trans (hinsert.trans hfront.symm)

/-- Fields with distinct keys are sorted without loss. -/
theorem sortFields_perm {fields : Fields} (h : (fields.map Prod.fst).Nodup) :
    (sortFields fields).Perm fields := foldl_insertField_perm fields h

/-! ## Every depth -/

theorem sorted_empty : (Value.object []).Sorted := ⟨List.Pairwise.nil, trivial⟩

theorem itemsSorted_iff {items : List Value} : ItemsSorted items ↔ ∀ v ∈ items, v.Sorted := by
  induction items with
  | nil => exact iff_of_true trivial (List.forall_mem_nil _)
  | cons v rest ih => rw [ItemsSorted, ih, List.forall_mem_cons]

theorem fieldsSorted_iff {fields : Fields} : FieldsSorted fields ↔ ∀ f ∈ fields, f.2.Sorted := by
  induction fields with
  | nil => exact iff_of_true trivial (List.forall_mem_nil _)
  | cons f rest ih => rw [FieldsSorted, ih, List.forall_mem_cons]

theorem fieldsSorted_insertField {key : String} {value : Value} {fields : Fields}
    (hvalue : value.Sorted) (h : FieldsSorted fields) :
    FieldsSorted (insertField key value fields) := by
  rw [fieldsSorted_iff] at h ⊢
  intro f hf
  rcases mem_insertField hf with rfl | hf
  · exact hvalue
  · exact h f hf

/-- A reader whose values are all sorted. -/
def ReadsSorted (read : Reader Value) : Prop := ∀ s v rest, read s = some (v, rest) → v.Sorted

theorem sorted_readItems {read : Reader Value} (hread : ReadsSorted read) (fuel : Nat) :
    ∀ (done : List Value) (s : List Char) (items : List Value) (rest : List Char),
      ItemsSorted done → readItems read fuel done s = some (items, rest) → ItemsSorted items := by
  induction fuel with
  | zero => exact fun _ _ _ _ _ h => by cases h
  | succ fuel ih =>
    intro done s items rest hdone h
    unfold readItems at h
    split at h
    next => cases h
    next v s' hv =>
      have hmore : ItemsSorted (v :: done) := ⟨hread _ _ _ hv, hdone⟩
      split at h
      next => exact ih _ _ _ _ hmore h
      next =>
        cases h
        rw [itemsSorted_iff] at hmore ⊢
        exact fun w hw => hmore w (List.mem_reverse.1 hw)
      next => cases h

theorem sorted_readFields {read : Reader Value} (hread : ReadsSorted read) (fuel : Nat) :
    ∀ (done : Fields) (s : List Char) (fields : Fields) (rest : List Char),
      (Value.object done).Sorted → readFields read fuel done s = some (fields, rest) →
        (Value.object fields).Sorted := by
  induction fuel with
  | zero => exact fun _ _ _ _ _ h => by cases h
  | succ fuel ih =>
    intro done s fields rest hdone h
    unfold readFields at h
    split at h
    next =>
      split at h
      next => cases h
      next key s' _ =>
        split at h
        next =>
          split at h
          next => cases h
          next v s'' hv =>
            have hmore : (Value.object (insertField key v done)).Sorted :=
              ⟨keysSorted_insertField hdone.1,
                fieldsSorted_insertField (hread _ _ _ hv) hdone.2⟩
            split at h
            next => exact ih _ _ _ _ hmore h
            next => cases h; exact hmore
            next => cases h
        next => cases h
    next => cases h

theorem sorted_readScalar : ReadsSorted readScalar := by
  intro s v rest h
  unfold readScalar at h
  split at h
  all_goals
    obtain ⟨x, hx, heq⟩ := Option.map_eq_some_iff.1 h
    cases heq
    trivial

theorem sorted_readNested {read : Reader Value} (hread : ReadsSorted read) (bracket : Char) :
    ReadsSorted (readNested read bracket) := by
  intro s v rest h
  unfold readNested at h
  split at h
  next =>
    split at h
    next => cases h; exact trivial
    next =>
      obtain ⟨⟨items, rest'⟩, hitems, heq⟩ := Option.map_eq_some_iff.1 h
      cases heq
      exact sorted_readItems hread _ [] _ _ _ trivial hitems
  next =>
    split at h
    next => cases h; exact sorted_empty
    next =>
      obtain ⟨⟨fields, rest'⟩, hfields, heq⟩ := Option.map_eq_some_iff.1 h
      cases heq
      exact sorted_readFields hread _ [] _ _ _ sorted_empty hfields

theorem sorted_readValue (depth : Nat) : ReadsSorted (readValue depth) := by
  induction depth with
  | zero =>
    intro s v rest h
    unfold readValue at h
    split at h
    next => cases h
    next => cases h
    next => exact sorted_readScalar _ _ _ h
  | succ depth ih =>
    intro s v rest h
    unfold readValue at h
    split at h
    next => exact sorted_readNested ih _ _ _ _ h
    next => exact sorted_readNested ih _ _ _ _ h
    next => exact sorted_readScalar _ _ _ h

/-- Every object of a text is sorted. -/
theorem parse?_sorted {text : String} {v : Value} (h : parse? text = some v) : v.Sorted := by
  unfold parse? at h
  split at h
  next w rest hw =>
    split at h
    next => cases h; exact sorted_readValue _ _ _ _ hw
    next => cases h
  next => cases h

end Ingress.Json
