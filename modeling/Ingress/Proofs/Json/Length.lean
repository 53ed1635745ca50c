import Mathlib
import Ingress.Json.Printer

/-!
# Lengths of JSON texts

* `length_quote` : a string is at least two characters shorter than its JSON string;
* `length_chars_array`, `length_chars_object` : the text of a container holds the texts of its
  values; `length_lt_chars_array`, `length_lt_chars_object` : it is longer than their number;
* `length_chars_le_render` : a text has at least as many bytes as characters.
-/

namespace Ingress.Json

/-! ## Strings -/

theorem length_escape_pos (c : Char) : 1 ≤ (escape c).length := by
  unfold escape
  repeat' split
  all_goals simp only [List.length_cons, List.length_nil]; omega

theorem length_escaped (cs : List Char) : cs.length ≤ (cs.flatMap escape).length := by
  induction cs with
  | nil => exact Nat.zero_le _
  | cons c cs ih =>
    have hc := length_escape_pos c
    rw [List.flatMap_cons, List.length_append, List.length_cons]
    omega

theorem length_quote (s : String) : s.length + 2 ≤ (quote s).length := by
  have h := length_escaped s.toList
  rw [String.length_toList] at h
  unfold quote
  rw [List.length_cons, List.length_append, List.length_singleton]
  omega

/-! ## Containers -/

theorem length_itemsChars_cons (v : Value) (rest : List Value) :
    v.chars.length + (itemsChars rest).length ≤ (itemsChars (v :: rest)).length := by
  cases rest with
  | nil => simp only [itemsChars, List.length_nil]; omega
  | cons w rest =>
    rw [show itemsChars (v :: w :: rest) = v.chars ++ ',' :: itemsChars (w :: rest) from rfl,
      List.length_append, List.length_cons]
    omega

theorem length_fieldsChars_cons (k : String) (v : Value) (rest : Fields) :
    v.chars.length + (fieldsChars rest).length ≤ (fieldsChars ((k, v) :: rest)).length := by
  cases rest with
  | nil =>
    rw [show fieldsChars [(k, v)] = quote k ++ ':' :: v.chars from rfl,
      show fieldsChars [] = [] from rfl, List.length_append, List.length_cons, List.length_nil]
    omega
  | cons f rest =>
    rw [show fieldsChars ((k, v) :: f :: rest)
        = quote k ++ ':' :: (v.chars ++ ',' :: fieldsChars (f :: rest)) from rfl]
    simp only [List.length_append, List.length_cons]
    omega

theorem length_chars_array (items : List Value) :
    (itemsChars items).length ≤ (Value.array items).chars.length := by
  rw [show (Value.array items).chars = '[' :: (itemsChars items ++ [']']) from rfl,
    List.length_cons, List.length_append]
  omega

theorem length_chars_object (fields : Fields) :
    (fieldsChars fields).length ≤ (Value.object fields).chars.length := by
  rw [show (Value.object fields).chars = '\x7b' :: (fieldsChars fields ++ ['\x7d']) from rfl,
    List.length_cons, List.length_append]
  omega

theorem length_le_itemsChars (items : List Value) :
    items.length ≤ (itemsChars items).length + 1 := by
  induction items with
  | nil => exact Nat.zero_le _
  | cons v rest ih =>
    cases rest with
    | nil => exact Nat.le_add_left ..
    | cons w rest =>
      rw [show itemsChars (v :: w :: rest) = v.chars ++ ',' :: itemsChars (w :: rest) from rfl]
      simp only [List.length_append, List.length_cons] at ih ⊢
      omega

theorem length_le_fieldsChars (fields : Fields) :
    fields.length ≤ (fieldsChars fields).length + 1 := by
  induction fields with
  | nil => exact Nat.zero_le _
  | cons f rest ih =>
    obtain ⟨k, v⟩ := f
    cases rest with
    | nil => exact Nat.le_add_left ..
    | cons g rest =>
      rw [show fieldsChars ((k, v) :: g :: rest)
          = quote k ++ ':' :: (v.chars ++ ',' :: fieldsChars (g :: rest)) from rfl]
      simp only [List.length_append, List.length_cons] at ih ⊢
      omega

/-- Every element but the last has its comma, and the brackets stand around them. -/
theorem length_lt_chars_array (items : List Value) :
    items.length < (Value.array items).chars.length := by
  have hitems := length_le_itemsChars items
  rw [show (Value.array items).chars = '[' :: (itemsChars items ++ [']']) from rfl,
    List.length_cons, List.length_append, List.length_singleton]
  omega

theorem length_lt_chars_object (fields : Fields) :
    fields.length < (Value.object fields).chars.length := by
  have hfields := length_le_fieldsChars fields
  rw [show (Value.object fields).chars = '\x7b' :: (fieldsChars fields ++ ['\x7d']) from rfl,
    List.length_cons, List.length_append, List.length_singleton]
  omega

/-- The text of a field is part of the text of its object. -/
theorem length_chars_lookup {key : String} {fields : Fields} {v : Value}
    (h : lookup key fields = some v) : v.chars.length ≤ (Value.object fields).chars.length := by
  refine le_trans ?_ (length_chars_object fields)
  induction fields with
  | nil => cases h
  | cons f rest ih =>
    obtain ⟨k, w⟩ := f
    have hc := length_fieldsChars_cons k w rest
    rw [lookup] at h
    split at h
    next => cases h; omega
    next => exact (ih h).trans (by omega)

/-! ## Bytes -/

theorem length_le_utf8Len (cs : List Char) : cs.length ≤ String.utf8Len cs := by
  induction cs with
  | nil => exact Nat.zero_le _
  | cons c cs ih =>
    have hc := c.utf8Size_pos
    rw [String.utf8Len_cons, List.length_cons]
    omega

theorem length_chars_le_render (v : Value) : v.chars.length ≤ v.render.utf8ByteSize := by
  unfold Value.render
  rw [String.utf8ByteSize_ofList]
  exact length_le_utf8Len v.chars

end Ingress.Json
