import Mathlib
import Ingress.Validation.Validator

/-!
# Severity of findings

Every check but one rejects what it finds: only the walk over the data warns, of strings that will
be cut short.

* `Finding.warns` : a finding that does not reject the event;
* `Rejecting` : findings that all reject;
* `Kind.rejecting_findings` : the rule of a kind never warns;
* `headFindings`, `rejecting_headFindings` : nor does a check ahead of the data.
-/

namespace Ingress

open Json

/-- The finding does not reject the event. -/
def Finding.warns (f : Finding) : Bool := !f.rejects

/-- Every finding rejects. -/
def Rejecting (fs : List Finding) : Prop := fs.countP Finding.warns = 0

namespace Rejecting

theorem nil : Rejecting [] := rfl

theorem append {fs gs : List Finding} (hf : Rejecting fs) (hg : Rejecting gs) :
    Rejecting (fs ++ gs) := by
  unfold Rejecting at *
  rw [List.countP_append, hf, hg]

theorem flatMap {α : Type} {f : α → List Finding} (xs : List α) (h : ∀ x, Rejecting (f x)) :
    Rejecting (xs.flatMap f) := by
  induction xs with
  | nil => exact nil
  | cons x xs ih => exact (h x).append ih

theorem singleton {f : Finding} (h : f.rejects = true) : Rejecting [f] := by
  unfold Rejecting
  rw [List.countP_singleton, Finding.warns, h]
  rfl

theorem ite {p : Prop} [Decidable p] {f : Finding} (h : f.rejects = true) :
    Rejecting (if p then [f] else []) := by
  split
  · exact singleton h
  · exact nil

theorem countP_append {fs : List Finding} (h : Rejecting fs) (gs : List Finding) :
    (fs ++ gs).countP Finding.warns = gs.countP Finding.warns := by
  rw [List.countP_append, h, Nat.zero_add]

theorem mul_le {fs : List Finding} (h : Rejecting fs) (k n : Nat) :
    fs.countP Finding.warns * k ≤ n := by
  rw [h, Nat.zero_mul]
  exact Nat.zero_le n

end Rejecting

/-! ## Rules of the kinds -/

namespace Rules

theorem rejecting_number (fields : Fields) (path name : String) (low high : Double)
    (required : Bool) : Rejecting (number fields path name low high required) := by
  unfold number
  repeat' split
  all_goals rfl

theorem rejecting_integer (fields : Fields) (path name : String) (low high : Int)
    (required : Bool) : Rejecting (integer fields path name low high required) := by
  unfold integer
  repeat' split
  all_goals rfl

theorem rejecting_handType (fields : Fields) : Rejecting (handType fields) := by
  unfold handType
  repeat' split
  all_goals rfl

theorem rejecting_card (path : String) (v : Value) : Rejecting (card path v) := by
  unfold card
  split
  next =>
    refine Rejecting.append ?_ ?_
    all_goals split <;> rfl
  next => split <;> rfl
  next => rfl

theorem rejecting_cardRow (items : List Value) (index : Nat) :
    Rejecting (cardRow index items) := by
  induction items generalizing index with
  | nil => exact Rejecting.nil
  | cons v rest ih => exact (rejecting_card _ v).append (ih _)

theorem rejecting_cards (l : Limits) (fields : Fields) : Rejecting (cards l fields) := by
  unfold cards
  split
  next => rfl
  next =>
    refine Rejecting.append ?_ (rejecting_cardRow _ 0)
    repeat' split
    all_goals rfl
  next => rfl

theorem rejecting_shopItem (path : String) (v : Value) : Rejecting (shopItem path v) := by
  unfold shopItem
  split
  next => exact rejecting_number ..
  next => rfl

theorem rejecting_itemRow (items : List Value) (index : Nat) :
    Rejecting (itemRow index items) := by
  induction items generalizing index with
  | nil => exact Rejecting.nil
  | cons v rest ih => exact (rejecting_shopItem _ v).append (ih _)

theorem rejecting_shopItems (fields : Fields) : Rejecting (shopItems fields) := by
  unfold shopItems
  split
  next => rfl
  next =>
    refine Rejecting.append ?_ (rejecting_itemRow _ 0)
    split <;> rfl
  next => rfl

end Rules

theorem Requirement.rejecting_findings (l : Limits) (fields : Fields) (r : Requirement) :
    Rejecting (r.findings l fields) := by
  cases r with
  | number => exact Rules.rejecting_number ..
  | integer => exact Rules.rejecting_integer ..
  | handType => exact Rules.rejecting_handType fields
  | cards => exact Rules.rejecting_cards l fields
  | shopItems => exact Rules.rejecting_shopItems fields

/-- The rule of a kind never warns. -/
theorem Kind.rejecting_findings (l : Limits) (fields : Fields) (k : Kind) :
    Rejecting (k.findings l fields) :=
  Rejecting.flatMap k.requirements (Requirement.rejecting_findings l fields)

/-! ## Checks ahead of the data -/

namespace Validation

/-- The findings of the fields of an event ahead of its data. -/
def headFindings (l : Limits) (nowMs : Int) (fields : Fields) : List Finding :=
  fields.flatMap (fun f => keyFindings f.1)
    ++ typeFindings l fields
    ++ missingFindings l fields
    ++ timestampFindings l nowMs fields
    ++ gameIdFindings l fields

theorem rejecting_headFindings (l : Limits) (nowMs : Int) (fields : Fields) :
    Rejecting (headFindings l nowMs fields) := by
  refine ((((Rejecting.flatMap fields fun f => ?_).append ?_).append ?_).append ?_).append ?_
  · unfold keyFindings
    repeat' split
    all_goals rfl
  · unfold typeFindings
    repeat' split
    all_goals rfl
  · unfold missingFindings
    dsimp only
    split <;> rfl
  · unfold timestampFindings
    repeat' split
    all_goals rfl
  · unfold gameIdFindings
    repeat' split
    all_goals rfl

end Validation

end Ingress
