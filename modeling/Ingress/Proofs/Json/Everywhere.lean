import Ingress.Json.Value
import Mathlib

/-!
# Values inside a value

* `Value.induction` : induction over values, with what is inside an array or an object;
* `Inside v d w e` : the value `w` stands at depth `e` inside `v`, which stands at depth `d`;
* `Everywhere P v d` : `P` holds of everything inside `v`, with its depth;
* `everywhere_array`, `everywhere_object`, ... : by the shape of the value.
-/

namespace Ingress.Json

/-- Induction over values. -/
theorem Value.induction {P : Value → Prop} (null : P .null) (bool : ∀ b, P (.bool b))
    (number : ∀ n, P (.number n)) (string : ∀ s, P (.string s))
    (array : ∀ items, (∀ v ∈ items, P v) → P (.array items))
    (object : ∀ fields, (∀ f ∈ fields, P f.2) → P (.object fields)) : ∀ v, P v
  | .null => null
  | .bool b => bool b
  | .number n => number n
  | .string s => string s
  | .array items => array items fun v _ => induction null bool number string array object v
  | .object fields => object fields fun f _ => induction null bool number string array object f.2
termination_by v => sizeOf v
decreasing_by
  · next hv =>
    have := List.sizeOf_lt_of_mem hv
    simp only [Value.array.sizeOf_spec]
    omega
  · next hf =>
    have hfields := List.sizeOf_lt_of_mem hf
    have hvalue : sizeOf f = 1 + sizeOf f.1 + sizeOf f.2 := rfl
    simp only [Value.object.sizeOf_spec]
    omega

/-- The value `w` stands at depth `e` inside `v`, which stands at depth `d`. -/
inductive Inside : Value → Nat → Value → Nat → Prop
  | here (v : Value) (d : Nat) : Inside v d v d
  | item {items : List Value} {v w : Value} {d e : Nat} (hv : v ∈ items)
      (h : Inside v (d + 1) w e) : Inside (.array items) d w e
  | field {fields : Fields} {f : String × Value} {w : Value} {d e : Nat} (hf : f ∈ fields)
      (h : Inside f.2 (d + 1) w e) : Inside (.object fields) d w e

/-- What holds of everything inside a value, with its depth. -/
def Everywhere (P : Value → Nat → Prop) (v : Value) (d : Nat) : Prop :=
  ∀ w e, Inside v d w e → P w e

variable {P : Value → Nat → Prop} {d : Nat}

theorem Everywhere.here {v : Value} (h : Everywhere P v d) : P v d := h v d (.here v d)

theorem everywhere_null : Everywhere P .null d ↔ P .null d :=
  ⟨Everywhere.here, fun h _ _ hw => by cases hw; exact h⟩

theorem everywhere_bool {b : Bool} : Everywhere P (.bool b) d ↔ P (.bool b) d :=
  ⟨Everywhere.here, fun h _ _ hw => by cases hw; exact h⟩

theorem everywhere_number {n : Number} : Everywhere P (.number n) d ↔ P (.number n) d :=
  ⟨Everywhere.here, fun h _ _ hw => by cases hw; exact h⟩

theorem everywhere_string {s : String} : Everywhere P (.string s) d ↔ P (.string s) d :=
  ⟨Everywhere.here, fun h _ _ hw => by cases hw; exact h⟩

theorem everywhere_array {items : List Value} :
    Everywhere P (.array items) d ↔
      P (.array items) d ∧ ∀ v ∈ items, Everywhere P v (d + 1) := by
  constructor
  · exact fun h => ⟨h.here, fun v hv w e hw => h w e (.item hv hw)⟩
  · rintro ⟨hself, hitems⟩ w e hw
    cases hw with
    | here => exact hself
    | item hv hw => exact hitems _ hv w e hw

theorem everywhere_object {fields : Fields} :
    Everywhere P (.object fields) d ↔
      P (.object fields) d ∧ ∀ f ∈ fields, Everywhere P f.2 (d + 1) := by
  constructor
  · exact fun h => ⟨h.here, fun f hf w e hw => h w e (.field hf hw)⟩
  · rintro ⟨hself, hfields⟩ w e hw
    cases hw with
    | here => exact hself
    | field hf hw => exact hfields _ hf w e hw

end Ingress.Json
