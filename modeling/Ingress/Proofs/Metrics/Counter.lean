import Ingress.Ledger
import Ingress.Proofs.Table
import Mathlib

/-!
# Counters with labels

* `Collector.family` : the counters of a name, with the labels of each;
* `counter_eq_find`, `counterTotal_eq_sum` : a counter and the sum over all labels are read off the family;
* `family_increment_of_ne` : which changes with increments of that name alone;
* `counter_increment`, `counterTotal_increment` : by an increment, the counter of its labels and the sum
  rise by the same amount; `counter_increment_of_ne` : no other counter does;
* `Ledger.batched` : the counters of delivered events.
-/

namespace Ingress

namespace Metrics

namespace Collector

/-- The counters of a name. -/
def family (c : Collector) (name : String) : List (Key × Nat) :=
  c.counters.entries.filter fun e => e.1.name == name

variable (c : Collector) (name : String) (labels : Labels)

theorem counter_eq_find :
    c.counter name labels = (Table.find (.of name labels) (c.family name)).getD 0 := by
  unfold counter family
  rw [Table.find_filter (fun k _ => k.name == name) _ c.counters.nodup]
  cases hvalue : c.counters.get? (.of name labels) with
  | none =>
    rw [show Table.find _ _ = none from hvalue]
    rfl
  | some n =>
    have hname : ((Key.of name labels).name == name) = true := beq_self_eq_true name
    rw [show Table.find _ _ = some n from hvalue, Option.filter_some, if_pos hname]

theorem counterTotal_eq_sum :
    c.counterTotal name = ((c.family name).map Prod.snd).sum % counterBound := by
  unfold counterTotal family
  rw [List.sum_eq_foldl]

/-! ## Increments -/

variable (n : Nat) (atMs : Int)

theorem filter_alterEntries_of_ne {key : Key} {other : String} (h : key.name ≠ other)
    (f : Option Nat → Nat) (es : List (Key × Nat)) :
    (Table.alterEntries key f es).filter (fun e => e.1.name == other) =
      es.filter fun e => e.1.name == other := by
  induction es with
  | nil => exact List.filter_cons_of_neg (by simpa using h)
  | cons e rest ih =>
    obtain ⟨k, v⟩ := e
    unfold Table.alterEntries
    by_cases hk : key = k
    · subst hk
      rw [if_pos rfl, List.filter_cons_of_neg (by simpa using h),
        List.filter_cons_of_neg (by simpa using h)]
    · rw [if_neg hk, List.filter_cons, List.filter_cons, ih]

theorem family_increment_of_ne {other : String} (h : name ≠ other) :
    (c.increment name n labels atMs).family other = c.family other :=
  filter_alterEntries_of_ne h _ _

theorem counter_increment_of_ne {other : String} {others : Labels}
    (h : Key.of other others ≠ Key.of name labels) :
    (c.increment name n labels atMs).counter other others = c.counter other others := by
  show ((c.counters.alter (.of name labels) fun old => (old.getD 0 + n) % counterBound).get?
    (.of other others)).getD 0 = _
  rw [Table.get?_alter, if_neg h]
  rfl

theorem counter_increment_of_name_ne {other : String} (h : other ≠ name) (others : Labels) :
    (c.increment name n labels atMs).counter other others = c.counter other others :=
  c.counter_increment_of_ne name labels n atMs (mt (congrArg Key.name) h)

theorem counter_increment (other : Labels) :
    (c.increment name n labels atMs).counter name other =
      if Key.of name other = Key.of name labels then (c.counter name labels + n) % counterBound
      else c.counter name other := by
  show ((c.counters.alter (.of name labels) fun old => (old.getD 0 + n) % counterBound).get?
    (.of name other)).getD 0 = _
  rw [Table.get?_alter]
  split <;> rfl

/-- Of the counters with one label, that of the label's own value rises. -/
theorem counter_increment_label {label x y : String} {k : Nat}
    (h : c.counter name [(label, y)] = k % counterBound) :
    (c.increment name n [(label, x)] atMs).counter name [(label, y)] =
      (k + if x = y then n else 0) % counterBound := by
  have hkey : Key.of name [(label, y)] = Key.of name [(label, x)] ↔ y = x := by simp [Key.of]
  rw [counter_increment]
  by_cases hx : x = y
  · subst hx
    rw [if_pos rfl, if_pos rfl, h, Nat.mod_add_mod]
  · rw [if_neg (fun hsame => hx (hkey.1 hsame).symm), if_neg hx, h, Nat.add_zero]

theorem sum_alterEntries (key : Key) (es : List (Key × Nat)) :
    (((Table.alterEntries key (fun old => (old.getD 0 + n) % counterBound) es).filter
        fun e => e.1.name == key.name).map Prod.snd).sum ≡
      ((es.filter fun e => e.1.name == key.name).map Prod.snd).sum + n [MOD counterBound] := by
  induction es with
  | nil =>
    simp only [Table.alterEntries, List.filter_cons, beq_self_eq_true, if_true, List.filter_nil,
      List.map_cons, List.map_nil, List.sum_cons, List.sum_nil]
    exact Nat.mod_modEq _ _
  | cons e rest ih =>
    obtain ⟨k, v⟩ := e
    unfold Table.alterEntries
    by_cases hk : key = k
    · subst hk
      simp only [if_true, List.filter_cons, beq_self_eq_true, List.map_cons, List.sum_cons]
      rw [Nat.add_right_comm]
      exact (Nat.mod_modEq _ _).add_right _
    · rw [if_neg hk, List.filter_cons, List.filter_cons]
      split
      · rw [List.map_cons, List.map_cons, List.sum_cons, List.sum_cons, Nat.add_assoc]
        exact ih.add_left v
      · exact ih

/-- The sum over all labels rises by what any of them is raised by. -/
theorem counterTotal_increment :
    (c.increment name n labels atMs).counterTotal name =
      (c.counterTotal name + n) % counterBound := by
  rw [counterTotal_eq_sum, counterTotal_eq_sum, Nat.mod_add_mod]
  exact sum_alterEntries n (.of name labels) c.counters.entries

end Collector

end Metrics

namespace Ledger

open Metrics

variable (l : Ledger)

def batched : List (Key × Nat) := l.metrics.family Name.batchedEvents

theorem batched_increment {name : String} (h : name ≠ Name.batchedEvents) (n : Nat) (labels : Labels) :
    (l.increment name n labels).batched = l.batched :=
  l.metrics.family_increment_of_ne name labels n l.clock h

end Ledger

end Ingress
