import Ingress.Proofs.Sanitize.Value
import Ingress.Proofs.Validation.Grammar
import Mathlib

/-!
# Names that are cut

Sanitizing cuts texts, those that name something as well. No kind, rank, suit or card code begins with
another, so what is left of a name is the whole name or no name at all. Names of hands are not like
that: "flush five" may become "flush".

* `PrefixFree` : names of printed characters of which none begins with another;
* `PrefixFree.string_eq`, `PrefixFree.string_mem_iff` : such a name after it is cut;
* `prefixFree_kinds`, `prefixFree_ranks`, `prefixFree_suits`, `prefixFree_codes` : the names of events.
-/

namespace Ingress.Sanitize

/-- A text without control characters is cut at most. -/
theorem toList_string_of_printed {s : String} (h : ∀ c ∈ s.toList, Text.isControlCode c = false)
    (max : Nat) : (string max s).toList = s.toList.take max := by
  have hkept : s.toList.filter keeps = s.toList := by
    refine List.filter_eq_self.2 fun c hc => ?_
    unfold keeps
    rw [h c hc, Bool.not_false, Bool.or_true]
  unfold string
  rw [String.toList_ofList, hkept]

/-- Names of printed characters of which none begins with another. -/
structure PrefixFree (names : List String) : Prop where
  printed : ∀ t ∈ names, t.toList.all (fun c => !Text.isControlCode c) = true
  apart : ∀ s ∈ names, ∀ t ∈ names, s.toList <+: t.toList → s = t

namespace PrefixFree

variable {names : List String} {t : String} {max : Nat}

theorem toList_string (h : PrefixFree names) (ht : t ∈ names) :
    (string max t).toList = t.toList.take max :=
  toList_string_of_printed
    (fun c hc => (Bool.not_eq_true' _).mp (List.all_eq_true.1 (h.printed t ht) c hc)) max

/-- A name that is still a name has not been cut. -/
theorem string_eq (h : PrefixFree names) (ht : t ∈ names) (hcut : string max t ∈ names) :
    string max t = t :=
  h.apart _ hcut t ht (h.toList_string ht ▸ List.take_prefix max t.toList)

theorem string_eq_iff (h : PrefixFree names) (ht : t ∈ names) :
    string max t = t ↔ t.length ≤ max := by
  rw [← String.toList_inj, h.toList_string ht, List.take_eq_self_iff, String.length_toList]

theorem string_mem_iff (h : PrefixFree names) (ht : t ∈ names) :
    string max t ∈ names ↔ t.length ≤ max := by
  rw [← h.string_eq_iff ht]
  exact ⟨h.string_eq ht, fun heq => heq.symm ▸ ht⟩

end PrefixFree

/-! ## The names of events -/

def suits : List Suit := [.hearts, .diamonds, .clubs, .spades, .wild]

theorem mem_suits (suit : Suit) : suit ∈ suits := by cases suit <;> decide

def cardCodes : List String :=
  rankNames.flatMap fun rank => suits.map fun suit => rank.push (Grammar.initial suit)

theorem mem_cardCodes {code : String} :
    code ∈ cardCodes ↔ ∃ rank ∈ rankNames, ∃ suit, code = rank.push (Grammar.initial suit) := by
  unfold cardCodes
  simp [mem_suits, eq_comm]

theorem name_mem_kinds (k : Kind) : k.name ∈ Kind.all.map Kind.name :=
  List.mem_map_of_mem (Kind.mem_all k)

theorem prefixFree_kinds : PrefixFree (Kind.all.map Kind.name) :=
  ⟨by decide, by decide⟩

theorem prefixFree_ranks : PrefixFree rankNames := ⟨by decide, by decide⟩

theorem prefixFree_suits : PrefixFree (suits.map Suit.name) := ⟨by decide, by decide⟩

theorem prefixFree_codes : PrefixFree cardCodes := ⟨by decide +kernel, by decide +kernel⟩

end Ingress.Sanitize
