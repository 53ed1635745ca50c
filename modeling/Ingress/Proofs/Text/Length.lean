import Ingress.Decimal.Layout
import Mathlib

/-!
# Lengths of texts

* `length_literal` : the length of a text that is written out, which is counted on its characters;
* `IsWord`, `IsWord.length_toString` : numbers of 64 bits and their texts;
* `length_between`, `length_word`, `length_two_words` : what is put between fixed texts;
* `length_intercalate_le` : texts with a separator;
* `Layout.length_plain_le` : the plain text of a double.
-/

namespace Ingress

/-- The length of a text that is written out. -/
theorem length_literal {cs : List Char} {k : Nat} (h : cs.length ≤ k) :
    (String.ofList cs).length ≤ k := by rwa [String.length_ofList]

theorem length_append_le {s t : String} {j k : Nat} (hs : s.length ≤ j) (ht : t.length ≤ k) :
    (s ++ t).length ≤ j + k := by
  rw [String.length_append]
  exact Nat.add_le_add hs ht

/-- A text between two others. -/
theorem length_between {cs ds : List Char} {s : String} {k : Nat} (hs : s.length ≤ k) :
    (String.ofList cs ++ s ++ String.ofList ds).length ≤ cs.length + k + ds.length :=
  length_append_le (length_append_le (length_literal le_rfl) hs) (length_literal le_rfl)

theorem length_intercalate_le (sep : String) (parts : List String) :
    (sep.intercalate parts).length ≤ (parts.map fun p => sep.length + p.length).sum := by
  induction parts with
  | nil => exact Nat.le_refl 0
  | cons p rest ih =>
    cases rest with
    | nil =>
      rw [String.intercalate_singleton]
      exact Nat.le_add_left ..
    | cons q rest =>
      rw [String.intercalate_cons_cons, String.length_append, String.length_append, List.map_cons,
        List.sum_cons]
      omega

/-! ## Numbers of 64 bits -/

/-- A number of 64 bits. -/
abbrev IsWord (n : Nat) : Prop := n < Nat.pow 2 64

theorem IsWord.of_le {n bound : Nat} (h : n ≤ bound) (hbound : bound < Nat.pow 2 64) : IsWord n :=
  h.trans_lt hbound

theorem IsWord.length_toString {n : Nat} (h : IsWord n) : (toString n).length ≤ 20 :=
  Nat.repr_length n 20 (by decide) (h.trans (by decide))

/-- A number behind a text. -/
theorem length_word {cs : List Char} {n : Nat} (h : IsWord n) :
    (String.ofList cs ++ toString n).length ≤ cs.length + 20 :=
  length_append_le (length_literal le_rfl) h.length_toString

/-- Two numbers, each behind a text. -/
theorem length_two_words {cs ds : List Char} {m n : Nat} (h : IsWord m ∧ IsWord n) :
    (String.ofList cs ++ toString m ++ String.ofList ds ++ toString n).length ≤
      cs.length + 20 + ds.length + 20 :=
  length_append_le (length_between h.1.length_toString) h.2.length_toString

/-! ## Doubles -/

namespace Layout

/-- What the plain text of a double takes at most: its digits, the zeros that place the point, the
point and the sign. -/
def plainRoom (d : Double) : Nat :=
  (toString d.shortest.digits).length + d.shortest.exponent.natAbs + 4

theorem length_placePoint (digits : List Char) (scale : Nat) :
    (placePoint digits scale).1.length + (placePoint digits scale).2.length
      ≤ digits.length + scale + 1 := by
  unfold placePoint
  dsimp only
  rw [← List.length_append, List.take_append_drop, List.length_append, List.length_replicate]
  omega

theorem length_positionalText_le (d : Decimal) :
    (plain.positionalText d).length ≤ (toString d.digits).length + d.exponent.natAbs + 2 := by
  have hplace := length_placePoint
    ((toString d.digits).toList ++ List.replicate d.exponent.toNat '0') (-d.exponent).toNat
  rw [List.length_append, List.length_replicate, String.length_toList] at hplace
  unfold positionalText
  dsimp only
  split
  next =>
    rw [if_neg (by decide), String.append_empty, String.length_ofList]
    omega
  next =>
    rw [String.length_ofList, List.length_append, List.length_cons]
    omega

theorem length_plain_le (d : Double) : (plain.text d).length ≤ plainRoom d := by
  have hdigits := length_positionalText_le d.shortest
  have hsign : (if d.negative then "-" else "").length ≤ 1 := by split <;> decide
  unfold text plainRoom
  split
  next => exact (show (3 : Nat) ≤ 4 by decide).trans (Nat.le_add_left ..)
  next =>
    split
    next =>
      have hinfinity : (plain.infinity d.negative).length ≤ 4 := by
        cases d.negative <;> decide
      exact hinfinity.trans (Nat.le_add_left ..)
    next =>
      have hpositional : ∀ e, plain.positional e = true := fun _ => rfl
      dsimp only
      rw [hpositional, if_pos rfl, String.length_append]
      omega

end Layout

end Ingress
