import Mathlib
import Ingress.Metrics.Collector
import Ingress.Proofs.Metrics.Rolling

/-!
# Runs of the collector

* `Operation`, `Call` : something that is recorded, and when;
* `Collector.perform`, `Collector.exec` : a call, and any number of them one after the other;
* `Call.amount` : what a call adds to the counters of a name; `amountSince`, `amountIn`, their sums;
* `securityEvents_inj`, `ne_securityEvents` : the counters of security events have names of their own;
* `rates_exec` : rolling counts get the tracked increments as entries;
* `recorded_entries` : what the entries of a tracked name add up to.

The calls of a run may come in any order of time.
-/

namespace Ingress.Metrics

inductive Operation where
  | increment (name : String) (n : Nat) (labels : Labels)
  | setGauge (name : String) (value : Double) (labels : Labels)
  | observe (name : String) (value : Double) (labels : Labels)
  | security (type client : String) (details : Json.Value)
  | reset

structure Call where
  time : Int
  operation : Operation

def Call.isReset (x : Call) : Bool :=
  match x.operation with
  | .reset => true
  | _ => false

namespace Collector

def perform (c : Collector) (x : Call) : Collector :=
  match x.operation with
  | .increment name n labels => c.increment name n labels x.time
  | .setGauge name value labels => c.setGauge name value labels
  | .observe name value labels => c.observe name value labels
  | .security type client details => c.security type client details x.time
  | .reset => c.reset

def exec (c : Collector) (calls : List Call) : Collector := calls.foldl perform c

theorem config_perform (c : Collector) (x : Call) : (c.perform x).config = c.config := by
  unfold perform
  split <;> rfl

theorem config_exec (c : Collector) (calls : List Call) : (c.exec calls).config = c.config := by
  induction calls generalizing c with
  | nil => rfl
  | cons x rest ih => exact (ih (c.perform x)).trans (c.config_perform x)

end Collector

/-! ## Amounts -/

/-- What a call adds to the counters of a name. -/
def Call.amount (name : String) (x : Call) : Nat :=
  match x.operation with
  | .increment other n _ => if other = name then n else 0
  | .security type _ _ => if Name.securityEvents type = name then 1 else 0
  | _ => 0

/-- What calls from a time on add to the counters of a name. -/
def amountSince (name : String) (since : Int) (calls : List Call) : Nat :=
  ((calls.filter fun x => since ≤ x.time).map (Call.amount name)).sum

def amountIn (name : String) (calls : List Call) : Nat := (calls.map (Call.amount name)).sum

/-! ## Names of security events -/

theorem securityEvents_inj {type other : String} :
    Name.securityEvents type = Name.securityEvents other ↔ type = other := by
  refine ⟨fun h => ?_, congrArg _⟩
  unfold Name.securityEvents at h
  rw [String.append_assoc, String.append_assoc] at h
  simpa using h

/-- The counters of security events are told from all others by how their names begin. -/
theorem ne_securityEvents {name : String} (h : name.toList.take 2 ≠ ['s', 'e']) (type : String) :
    name ≠ Name.securityEvents type := by
  rintro rfl
  refine h ?_
  unfold Name.securityEvents
  rw [String.toList_append, String.toList_append]
  rfl

theorem securityEvents_not_tracked (type : String) :
    Name.rateTracked.contains (Name.securityEvents type) = false := by
  have hbegin : ∀ name ∈ Name.rateTracked, name.toList.take 2 ≠ ['s', 'e'] := by decide +kernel
  rw [← Bool.not_eq_true, List.contains_iff_mem]
  exact fun h => ne_securityEvents (hbegin _ h) type rfl

/-! ## Rolling counts -/

/-- The entry that rolling counts get of a call. -/
def Call.entry? (x : Call) : Option Entry :=
  match x.operation with
  | .increment name n _ =>
    if Name.rateTracked.contains name then some ⟨name, n, secondOf x.time⟩ else none
  | _ => none

def entries (calls : List Call) : List Entry := calls.filterMap Call.entry?

theorem entries_cons (x : Call) (rest : List Call) :
    entries (x :: rest) = x.entry?.toList ++ entries rest := by
  unfold entries
  cases h : x.entry? with
  | none => rw [List.filterMap_cons_none h]; rfl
  | some e => rw [List.filterMap_cons_some h]; rfl

theorem Collector.rates_perform (c : Collector) {x : Call} (h : x.isReset = false) :
    (c.perform x).rates = c.rates.recordAll x.entry?.toList := by
  obtain ⟨time, operation⟩ := x
  cases operation with
  | increment name n labels =>
    unfold perform increment Call.entry?
    dsimp only
    split <;> rfl
  | setGauge name value labels => rfl
  | observe name value labels => rfl
  | security type client details =>
    show (c.increment (Name.securityEvents type) 1 [] time).rates = c.rates
    unfold increment
    rw [securityEvents_not_tracked type]
    rfl
  | reset => cases h

/-- Rolling counts get the tracked increments as entries. -/
theorem Collector.rates_exec (c : Collector) {calls : List Call}
    (h : ∀ x ∈ calls, x.isReset = false) :
    (c.exec calls).rates = c.rates.recordAll (entries calls) := by
  induction calls generalizing c with
  | nil => rfl
  | cons x rest ih =>
    obtain ⟨hx, hrest⟩ := List.forall_mem_cons.1 h
    show ((c.perform x).exec rest).rates = _
    rw [ih (c.perform x) hrest, rates_perform c hx, entries_cons]
    unfold Rolling.recordAll
    rw [List.foldl_append]

theorem time_mem_entries {calls : List Call} {e : Entry} (h : e ∈ entries calls) :
    ∃ x ∈ calls, e.time = secondOf x.time := by
  obtain ⟨x, hx, he⟩ := List.mem_filterMap.1 h
  refine ⟨x, hx, ?_⟩
  unfold Call.entry? at he
  split at he
  · split at he
    · rw [← Option.some.inj he]
    · cases he
  · cases he

theorem recorded_entry {name : String} (hname : Name.rateTracked.contains name = true)
    (r : Rolling) (x : Call) (p : Int → Bool) : r.recorded x.entry?.toList name p =
      if p (r.indexOf (secondOf x.time)) then x.amount name else 0 := by
  obtain ⟨time, operation⟩ := x
  cases operation with
  | increment other n labels =>
    unfold Call.entry? Call.amount Rolling.recorded
    dsimp only
    by_cases hother : other = name
    · subst hother
      rw [if_pos hname, if_pos rfl, Option.toList_some, List.filter_singleton, beq_self_eq_true]
      cases p (r.indexOf (secondOf time)) <;> rfl
    · have hne : (other == name) = false := by simpa using hother
      rw [if_neg hother, ite_self]
      split <;> simp [hne]
  | security type client details =>
    have hne : Name.securityEvents type ≠ name := by
      rintro rfl
      rw [securityEvents_not_tracked] at hname
      cases hname
    unfold Call.amount
    dsimp only
    rw [if_neg hne, ite_self]
    rfl
  | setGauge other value labels => exact (ite_self 0).symm
  | observe other value labels => exact (ite_self 0).symm
  | reset => exact (ite_self 0).symm

/-- The entries of a tracked name add up to what its calls do. -/
theorem recorded_entries {name : String} (hname : Name.rateTracked.contains name = true)
    (r : Rolling) (calls : List Call) (p : Int → Bool) :
    r.recorded (entries calls) name p =
      ((calls.filter fun x => p (r.indexOf (secondOf x.time))).map (Call.amount name)).sum := by
  induction calls with
  | nil => rfl
  | cons x rest ih =>
    have hone := recorded_entry hname r x p
    rw [entries_cons]
    unfold Rolling.recorded at hone ih ⊢
    rw [List.filter_append, List.map_append, List.sum_append, hone, ih, List.filter_cons]
    split
    · rw [List.map_cons, List.sum_cons]
    · rw [Nat.zero_add]

end Ingress.Metrics
