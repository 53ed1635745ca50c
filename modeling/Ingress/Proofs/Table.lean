import Mathlib
import Ingress.Table

/-!
# Look-up in tables

* `get?_of_mem`, `mem_of_get?` : an entry is found by its key, and nothing else is;
* `insert_of_get?` : to insert what is there changes nothing;
* `get?_map`, `get?_filter` : look-up after a change of every value and after a selection.
-/

namespace Ingress.Table

variable {κ ν μ : Type} [DecidableEq κ]

theorem find_eq_none {k : κ} {es : List (κ × ν)} (h : k ∉ es.map Prod.fst) : find k es = none := by
  induction es with
  | nil => rfl
  | cons e rest ih =>
    obtain ⟨k', v⟩ := e
    rw [List.map_cons, List.mem_cons, not_or] at h
    rw [find, if_neg h.1]
    exact ih h.2

theorem find_of_mem {k : κ} {v : ν} {es : List (κ × ν)} (hes : (es.map Prod.fst).Nodup)
    (h : (k, v) ∈ es) : find k es = some v := by
  induction es with
  | nil => cases h
  | cons e rest ih =>
    obtain ⟨k', v'⟩ := e
    rw [List.map_cons, List.nodup_cons] at hes
    rcases List.mem_cons.1 h with heq | hrest
    · cases heq
      rw [find, if_pos rfl]
    · have hne : k ≠ k' := by
        rintro rfl
        exact hes.1 (List.mem_map.2 ⟨(k, v), hrest, rfl⟩)
      rw [find, if_neg hne]
      exact ih hes.2 hrest

/-- An entry is found by its key. -/
theorem get?_of_mem {t : Table κ ν} {k : κ} {v : ν} (h : (k, v) ∈ t.entries) :
    t.get? k = some v := find_of_mem t.nodup h

theorem mem_of_find {k : κ} {v : ν} {es : List (κ × ν)} (h : find k es = some v) : (k, v) ∈ es := by
  induction es with
  | nil => cases h
  | cons e rest ih =>
    obtain ⟨k', v'⟩ := e
    rw [find] at h
    split at h
    next hk =>
      cases h
      exact hk ▸ List.mem_cons_self
    next => exact List.mem_cons_of_mem _ (ih h)

/-- What is found is an entry. -/
theorem mem_of_get? {t : Table κ ν} {k : κ} {v : ν} (h : t.get? k = some v) : (k, v) ∈ t.entries :=
  mem_of_find h

theorem get?_map (t : Table κ ν) (f : κ → ν → μ) (k : κ) :
    (t.map f).get? k = (t.get? k).map (f k) := by
  show find k (t.entries.map fun e => (e.1, f e.1 e.2)) = (find k t.entries).map (f k)
  induction t.entries with
  | nil => rfl
  | cons e rest ih =>
    obtain ⟨k', v⟩ := e
    rw [List.map_cons, find, find]
    by_cases h : k = k'
    · rw [if_pos h, if_pos h, h, Option.map_some]
    · rw [if_neg h, if_neg h]
      exact ih

theorem find_filter (p : κ → ν → Bool) (k : κ) {es : List (κ × ν)}
    (hes : (es.map Prod.fst).Nodup) :
    find k (es.filter fun e => p e.1 e.2) = (find k es).filter (p k) := by
  induction es with
  | nil => rfl
  | cons e rest ih =>
    obtain ⟨k', v⟩ := e
    rw [List.map_cons, List.nodup_cons] at hes
    have hrest := ih hes.2
    rw [List.filter_cons, find]
    by_cases h : k = k'
    · subst h
      rw [if_pos rfl, Option.filter_some]
      split
      · rw [find, if_pos rfl]
      · rw [hrest, find_eq_none hes.1, Option.filter_none]
    · rw [if_neg h]
      split
      · rw [find, if_neg h, hrest]
      · exact hrest

theorem get?_filter (t : Table κ ν) (p : κ → ν → Bool) (k : κ) :
    (t.filter p).get? k = (t.get? k).filter (p k) := find_filter p k t.nodup

theorem alterEntries_of_find {k : κ} {v : ν} {es : List (κ × ν)} (h : find k es = some v) :
    alterEntries k (fun _ => v) es = es := by
  induction es with
  | nil => cases h
  | cons e rest ih =>
    obtain ⟨k', v'⟩ := e
    rw [find] at h
    rw [alterEntries]
    by_cases hk : k = k'
    · rw [if_pos hk] at h ⊢
      rw [Option.some_inj.1 h]
    · rw [if_neg hk] at h ⊢
      rw [ih h]

/-- To insert what is there changes nothing. -/
theorem insert_of_get? {t : Table κ ν} {k : κ} {v : ν} (h : t.get? k = some v) :
    t.insert k v = t := by
  obtain ⟨entries, nodup⟩ := t
  unfold insert alter
  congr 1
  exact alterEntries_of_find h

end Ingress.Table
