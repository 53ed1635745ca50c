import Ingress.Proofs.Sanitize.Event
import Ingress.Proofs.Sanitize.Reach
import Mathlib

/-!
# Keys of sanitized events

Sanitizing cleans texts, but of the keys of objects it reads the length only: a key that is not too long
stays letter by letter, control characters included.

* `HasKey` : an object inside a value has the key;
* `KeepsKey` : the walk comes to an object with the key, and the limits allow both;
* `hasKey_value_iff` : the keys inside a sanitized value are the keys that are kept;
* `hasKey_data_iff` : so are those of an event's data.
-/

namespace Ingress.Sanitize

open Json

/-- Inside `v`, which stands at depth `d`, an object has the key. -/
def HasKey (v : Value) (d : Nat) (key : String) : Prop :=
  ∃ fs e, Inside v d (.object fs) e ∧ key ∈ fs.map Prod.fst

/-- From `v` at depth `d` the walk comes to an object with the key; neither lies the object too deep, nor
is the key too long. -/
def KeepsKey (l : Limits) (v : Value) (d : Nat) (key : String) : Prop :=
  key.length ≤ l.maxKeyLength ∧
    ∃ fs e, Reached l v d (.object fs) e ∧ e ≤ l.maxDepth ∧ key ∈ fs.map Prod.fst

variable {l : Limits} {d : Nat} {v : Value} {key : String}

theorem not_hasKey_empty : ¬ HasKey (.object []) d key := by
  rintro ⟨fs, e, hinside, hkey⟩
  cases hinside with
  | here => exact List.not_mem_nil hkey
  | field hf _ => exact List.not_mem_nil hf

/-- The keys of an object that is sanitized. -/
theorem mem_keys_value {fs gs : Fields} (h : .object gs = value l d (.object fs)) :
    key ∈ gs.map Prod.fst ↔
      d ≤ l.maxDepth ∧ key.length ≤ l.maxKeyLength ∧ key ∈ fs.map Prod.fst := by
  rw [value_object_eq, Value.object.injEq] at h
  subst h
  split
  next hdeep =>
    refine iff_of_false List.not_mem_nil fun hkeep => ?_
    omega
  next hdeep =>
    rw [List.map_map]
    simp only [List.mem_map, List.mem_filter, decide_eq_true_eq, Function.comp_apply]
    constructor
    · rintro ⟨f, ⟨hf, hlength⟩, rfl⟩
      exact ⟨by omega, hlength, f, hf, rfl⟩
    · rintro ⟨-, hlength, f, hf, rfl⟩
      exact ⟨f, ⟨hf, hlength⟩, rfl⟩

/-- The keys inside a sanitized value are those that are kept, as they were. -/
theorem hasKey_value_iff : HasKey (value l d v) d key ↔ KeepsKey l v d key := by
  constructor
  · rintro ⟨gs, e, hinside, hkey⟩
    obtain ⟨u, hreached, hobject⟩ := inside_value_iff.1 hinside
    -- only an object is sanitized into an object
    cases u with
    | object fs =>
      obtain ⟨hdeep, hlength, hmem⟩ := (mem_keys_value hobject).1 hkey
      exact ⟨hlength, fs, e, hreached, hdeep, hmem⟩
    | array vs => exact absurd (hobject.trans (value_array_eq l e vs)) nofun
    | null | bool | number | string => cases hobject
  · rintro ⟨hlength, fs, e, hreached, hdeep, hmem⟩
    have hobject := value_object_eq l e fs
    refine ⟨_, e, inside_value_iff.2 ⟨_, hreached, hobject.symm⟩, ?_⟩
    exact (mem_keys_value hobject.symm).2 ⟨hdeep, hlength, hmem⟩

/-- The keys of the data of a sanitized event are those that the event before gives and the limits allow. -/
theorem hasKey_data_iff {fields : Fields} {e : Event} (he : Event.Decoded (eventFields l fields) e) :
    HasKey (.object e.data) 1 key ↔
      ∃ data, lookup "data" fields = some data ∧ KeepsKey l data 1 key := by
  rcases data_eq he with ⟨hnone, hempty⟩ | ⟨data, hdata, hvalue⟩
  · rw [hempty]
    refine iff_of_false not_hasKey_empty ?_
    rintro ⟨data, hdata, -⟩
    cases hnone.symm.trans hdata
  · rw [hvalue, hasKey_value_iff]
    constructor
    · exact fun hkeep => ⟨data, hdata, hkeep⟩
    · rintro ⟨data', hdata', hkeep⟩
      cases hdata.symm.trans hdata'
      exact hkeep

end Ingress.Sanitize
