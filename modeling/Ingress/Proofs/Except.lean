/-!
# Results and their steps

* `exists_of_bind`, `exists_of_map` : what goes on from a result has had one.
-/

namespace Ingress

variable {ε α β : Type} {x : Except ε α} {b : β}

theorem exists_of_bind {f : α → Except ε β} (h : (x >>= f) = .ok b) : ∃ a, x = .ok a ∧ f a = .ok b := by
  cases x with
  | error e => cases h
  | ok a => exact ⟨a, rfl, h⟩

theorem exists_of_map {f : α → β} (h : x.map f = .ok b) : ∃ a, x = .ok a ∧ f a = b := by
  cases x with
  | error e => cases h
  | ok a => exact ⟨a, rfl, Except.ok.inj h⟩

end Ingress
