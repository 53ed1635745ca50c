/-!
# Tables

* `Table κ ν` : entries with distinct keys, in the order of their first insertion;
* `Table.get?` : the value of a key;
* `Table.alter` : a key's value computed from its present one;
* `Table.insert`, `Table.filter`, `Table.map` : the other operations.
-/

namespace Ingress

/-- Entries with distinct keys, in the order of their first insertion. -/
structure Table (κ ν : Type) where
  entries : List (κ × ν)
  nodup : (entries.map Prod.fst).Nodup

namespace Table

variable {κ ν μ : Type} [DecidableEq κ]

def empty : Table κ ν := ⟨[], List.nodup_nil⟩

instance : Inhabited (Table κ ν) := ⟨empty⟩

/-- The first value of a key in a list of entries. -/
def find (k : κ) : List (κ × ν) → Option ν
  | [] => none
  | (k', v) :: rest => if k = k' then some v else find k rest

def get? (t : Table κ ν) (k : κ) : Option ν := find k t.entries

def contains (t : Table κ ν) (k : κ) : Bool := (t.get? k).isSome

def size (t : Table κ ν) : Nat := t.entries.length

/-- A list of entries with the value of a key replaced, or the key added at the end. -/
def alterEntries (k : κ) (f : Option ν → ν) : List (κ × ν) → List (κ × ν)
  | [] => [(k, f none)]
  | (k', v) :: rest => if k = k' then (k', f (some v)) :: rest else (k', v) :: alterEntries k f rest

theorem keys_alterEntries (k : κ) (f : Option ν → ν) (es : List (κ × ν)) :
    (alterEntries k f es).map Prod.fst =
      if k ∈ es.map Prod.fst then es.map Prod.fst else es.map Prod.fst ++ [k] := by
  induction es with
  | nil => simp [alterEntries]
  | cons e rest ih =>
    obtain ⟨k', v⟩ := e
    by_cases h : k = k'
    · simp [alterEntries, h]
    · by_cases hm : k ∈ rest.map Prod.fst
      · rw [if_pos hm] at ih
        simp only [alterEntries, h, if_false, List.map_cons, List.mem_cons, false_or, hm, if_true, ih]
      · rw [if_neg hm] at ih
        simp only [alterEntries, h, if_false, List.map_cons, List.mem_cons, false_or, hm, ih,
          List.cons_append]

theorem nodup_alterEntries (k : κ) (f : Option ν → ν) (es : List (κ × ν))
    (h : (es.map Prod.fst).Nodup) : ((alterEntries k f es).map Prod.fst).Nodup := by
  rw [keys_alterEntries]
  split
  · exact h
  · next hk =>
    rw [List.nodup_append]
    refine ⟨h, by simp, ?_⟩
    intro a ha b hb
    simp only [List.mem_singleton] at hb
    intro hab
    exact hk (hb ▸ hab ▸ ha)

/-- The table with the value of a key computed from its present one. -/
def alter (t : Table κ ν) (k : κ) (f : Option ν → ν) : Table κ ν :=
  ⟨alterEntries k f t.entries, nodup_alterEntries k f t.entries t.nodup⟩

def insert (t : Table κ ν) (k : κ) (v : ν) : Table κ ν := t.alter k fun _ => v

def filter (t : Table κ ν) (p : κ → ν → Bool) : Table κ ν :=
  ⟨t.entries.filter fun e => p e.1 e.2, t.nodup.sublist (List.filter_sublist.map Prod.fst)⟩

def map (t : Table κ ν) (f : κ → ν → μ) : Table κ μ :=
  ⟨t.entries.map fun e => (e.1, f e.1 e.2), by
    have h : (t.entries.map fun e => (e.1, f e.1 e.2)).map Prod.fst = t.entries.map Prod.fst := by
      simp
    rw [h]
    exact t.nodup⟩

/-! ## Look-up after an operation -/

theorem find_alterEntries (k j : κ) (f : Option ν → ν) (es : List (κ × ν)) :
    find j (alterEntries k f es) = if j = k then some (f (find k es)) else find j es := by
  induction es with
  | nil =>
    by_cases h : j = k <;> simp [alterEntries, find, h]
  | cons e rest ih =>
    obtain ⟨k', v⟩ := e
    by_cases h : k = k'
    · subst h
      by_cases hj : j = k <;> simp [alterEntries, find, hj]
    · by_cases hj : j = k
      · subst hj
        simp [alterEntries, find, h, ih]
      · simp only [alterEntries, h, if_false, find, ih, hj]

theorem get?_alter (t : Table κ ν) (k j : κ) (f : Option ν → ν) :
    (t.alter k f).get? j = if j = k then some (f (t.get? k)) else t.get? j :=
  find_alterEntries k j f t.entries

theorem get?_insert (t : Table κ ν) (k j : κ) (v : ν) :
    (t.insert k v).get? j = if j = k then some v else t.get? j :=
  get?_alter t k j _

end Table

end Ingress
