import Ingress.Proofs.Sanitize.Value
import Mathlib

/-!
# What sanitizing reaches

Sanitizing walks a value and leaves out what breaks a limit: the elements of an array beyond its limit,
fields with long keys, and whatever an array or an object holds that lies too deep. All that is left is
what the walk reaches, each value of it sanitized at its own depth.

* `Reached l v d w e` : from `v` at depth `d` the walk comes to `w` at depth `e`;
* `value_array_eq`, `value_object_eq` : one turn of the walk;
* `inside_value_iff` : what is inside a sanitized value is what was reached, sanitized.
-/

namespace Ingress.Sanitize

open Json

/-- From `v` at depth `d` the walk comes to `w` at depth `e`. -/
inductive Reached (l : Limits) : Value → Nat → Value → Nat → Prop
  | here (v : Value) (d : Nat) : Reached l v d v d
  | item {vs : List Value} {v w : Value} {d e : Nat} (hd : d ≤ l.maxDepth)
      (hv : v ∈ vs.take l.maxElements) (h : Reached l v (d + 1) w e) : Reached l (.array vs) d w e
  | field {fs : Fields} {f : String × Value} {w : Value} {d e : Nat} (hd : d ≤ l.maxDepth)
      (hf : f ∈ fs) (hkey : f.1.length ≤ l.maxKeyLength) (h : Reached l f.2 (d + 1) w e) :
      Reached l (.object fs) d w e

variable {l : Limits} {d e : Nat} {w : Value}

theorem value_array_eq (l : Limits) (d : Nat) (vs : List Value) :
    value l d (.array vs) =
      .array (if l.maxDepth < d then [] else (vs.take l.maxElements).map (value l (d + 1))) := by
  rw [value, items_eq]
  split <;> rfl

theorem value_object_eq (l : Limits) (d : Nat) (fs : Fields) :
    value l d (.object fs) =
      .object (if l.maxDepth < d then [] else
        (fs.filter fun f => decide (f.1.length ≤ l.maxKeyLength)).map
          fun f => (f.1, value l (d + 1) f.2)) := by
  rw [value, fields_eq]
  split <;> rfl

theorem reached_of_inside {v : Value} : ∀ {d}, Inside (value l d v) d w e →
    ∃ u, Reached l v d u e ∧ w = value l e u := by
  induction v using Value.induction with
  | null | bool | number | string =>
    intro d h
    cases h
    exact ⟨_, .here _ _, rfl⟩
  | array vs ih =>
    intro d h
    rw [value_array_eq] at h
    cases h with
    | here => exact ⟨_, .here _ _, (value_array_eq l _ vs).symm⟩
    | item hv h =>
      split at hv
      next => cases hv
      next hd =>
        obtain ⟨v, hmem, rfl⟩ := List.mem_map.1 hv
        obtain ⟨u, hu, hw⟩ := ih v (List.mem_of_mem_take hmem) h
        exact ⟨u, .item (by omega) hmem hu, hw⟩
  | object fs ih =>
    intro d h
    rw [value_object_eq] at h
    cases h with
    | here => exact ⟨_, .here _ _, (value_object_eq l _ fs).symm⟩
    | field hf h =>
      split at hf
      next => cases hf
      next hd =>
        obtain ⟨f, hmem, rfl⟩ := List.mem_map.1 hf
        obtain ⟨hmem, hkey⟩ := List.mem_filter.1 hmem
        obtain ⟨u, hu, hw⟩ := ih f hmem h
        exact ⟨u, .field (by omega) hmem (by simpa using hkey) hu, hw⟩

theorem Reached.inside {v u : Value} (h : Reached l v d u e) :
    Inside (value l d v) d (value l e u) e := by
  induction h with
  | here v d => exact .here _ _
  | item hd hv h ih =>
    rw [value_array_eq, if_neg (by omega)]
    exact .item (List.mem_map_of_mem hv) ih
  | field hd hf hkey h ih =>
    rw [value_object_eq, if_neg (by omega)]
    exact .field (List.mem_map.2 ⟨_, List.mem_filter.2 ⟨hf, by simpa using hkey⟩, rfl⟩) ih

/-- What is inside a sanitized value is what the walk reached, sanitized. -/
theorem inside_value_iff {v : Value} :
    Inside (value l d v) d w e ↔ ∃ u, Reached l v d u e ∧ w = value l e u :=
  ⟨reached_of_inside, by rintro ⟨u, hu, rfl⟩; exact hu.inside⟩

end Ingress.Sanitize
