import Mathlib

/-!
# The last elements of a list

What keeps a bounded number of the newest things holds the last elements of all that came.

* `push_rtake`, `replace_rtake` : one more at the end, and at capacity the oldest goes;
* `length_rtake`, `map_rtake`, `rtake_range'` : the number of the last elements, and the last of others.
-/

namespace Ingress

variable {α β : Type} {n : Nat}

theorem length_rtake (l : List α) (n : Nat) : (l.rtake n).length = min l.length n := by
  unfold List.rtake
  rw [List.length_drop]
  omega

theorem map_rtake (f : α → β) (l : List α) (n : Nat) : (l.rtake n).map f = (l.map f).rtake n := by
  unfold List.rtake
  rw [List.map_drop, List.length_map]

theorem rtake_min_length (l : List α) (n : Nat) : l.rtake (min l.length n) = l.rtake n := by
  unfold List.rtake
  congr 1
  omega

theorem rtake_range' {k : Nat} (h : k ≤ n) :
    (List.range' 1 n).rtake k = List.range' (n + 1 - k) k := by
  unfold List.rtake
  rw [List.length_range', List.drop_range']
  congr 1 <;> omega

/-- One more at the end, and at capacity the oldest goes: the last ones are kept. -/
theorem push_rtake (hn : 0 < n) (l : List α) (x : α) :
    (if n ≤ (l.rtake n).length then (l.rtake n).drop 1 else l.rtake n) ++ [x] =
      (l ++ [x]).rtake n := by
  obtain ⟨m, rfl⟩ := Nat.exists_eq_succ_of_ne_zero hn.ne'
  rw [List.rtake_concat_succ]
  congr 1
  unfold List.rtake
  rw [List.length_drop]
  split
  · rw [List.drop_drop]
    congr 1
    omega
  · congr 1
    omega

/-- No more than the capacity are ever held. -/
theorem replace_rtake (hn : 0 < n) (l : List α) (x : α) :
    (if (l.rtake n).length = n then (l.rtake n).drop 1 else l.rtake n) ++ [x] =
      (l ++ [x]).rtake n := by
  have hfull : (l.rtake n).length = n ↔ n ≤ (l.rtake n).length := by
    rw [length_rtake]
    omega
  simp only [hfull]
  exact push_rtake hn l x

end Ingress
