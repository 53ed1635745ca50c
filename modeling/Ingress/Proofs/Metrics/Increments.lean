import Ingress.Proofs.Metrics.Counter
import Ingress.Proofs.Metrics.Run
import Ingress.Proofs.Metrics.Shares
import Mathlib

/-!
# Counters against the calls that raised them

A counter is kept under its name and its labels in order, and is entered when it is first raised; an
increment of a tracked name also enters an interval of the rolling counts, under the name alone. Both are
read off one history: the calls since everything was last forgotten.

* `Key.of_eq_of_iff` : lists of labels stand for the same counter when they are permutations of each other;
* `sinceReset` : the calls since everything was last forgotten;
* `Call.amountWith`, `amountWith` : what calls add to the counter of a name with labels;
* `counter_perform`, `counterTotal_perform`, `recent_perform` : what a call does to either store;
* `Told` : both stores against the calls, kept by every call (`Told.perform`, `told_exec`);
* `Counted`, `exec_counted` : what is read of a collector after any run.
-/

namespace Ingress

/-! ## Labels in any order -/

namespace Text

theorem pairLe_iff {a b : String × String} :
    pairLe a b = true ↔ a.1 < b.1 ∨ a.1 = b.1 ∧ a.2 ≤ b.2 := by
  unfold pairLe le
  split
  next h =>
    have hirrefl : ¬ a.1 < b.1 := h ▸ lt_irrefl a.1
    rw [decide_eq_true_eq, not_lt]
    exact ⟨fun hle => .inr ⟨h, hle⟩, fun hor => (hor.resolve_left hirrefl).2⟩
  next h =>
    rw [decide_eq_true_eq]
    exact ⟨.inl, fun hor => hor.resolve_right fun hboth => h hboth.1⟩

theorem pairLe_total (a b : String × String) : (pairLe a b || pairLe b a) = true := by
  rw [Bool.or_eq_true, pairLe_iff, pairLe_iff]
  rcases lt_trichotomy a.1 b.1 with h | h | h
  · exact .inl (.inl h)
  · exact (le_total a.2 b.2).imp (fun hle => .inr ⟨h, hle⟩) fun hle => .inr ⟨h.symm, hle⟩
  · exact .inr (.inl h)

theorem pairLe_trans (a b c : String × String) (hab : pairLe a b = true) (hbc : pairLe b c = true) :
    pairLe a c = true := by
  rw [pairLe_iff] at *
  rcases hab with hab | ⟨hab, hab'⟩
  · rcases hbc with hbc | ⟨hbc, -⟩
    · exact .inl (hab.trans hbc)
    · exact .inl (hbc ▸ hab)
  · rw [hab]
    exact hbc.imp_right fun ⟨hbc, hbc'⟩ => ⟨hbc, hab'.trans hbc'⟩

theorem pairLe_antisymm {a b : String × String} (hab : pairLe a b = true) (hba : pairLe b a = true) :
    a = b := by
  rw [pairLe_iff] at hab hba
  rcases hab with hlt | ⟨hfirst, hsecond⟩
  · rcases hba with hgt | ⟨heq, -⟩
    · exact absurd hlt hgt.not_gt
    · exact absurd heq.symm hlt.ne
  · rcases hba with hgt | ⟨-, hle⟩
    · exact absurd hfirst.symm hgt.ne
    · exact Prod.ext hfirst (le_antisymm hsecond hle)

end Text

namespace Metrics

/-- Lists of labels stand for the same counter of a name when they are permutations of each other. -/
theorem Key.of_eq_of_iff {name other : String} {labels others : Labels} :
    Key.of other others = Key.of name labels ↔ other = name ∧ others.Perm labels := by
  unfold Key.of
  rw [Key.mk.injEq]
  refine and_congr_right fun _ => ⟨fun h => ?_, fun h => ?_⟩
  · exact (List.mergeSort_perm others _).symm.trans (h ▸ List.mergeSort_perm labels _)
  · refine List.Perm.eq_of_pairwise (fun a b _ _ => Text.pairLe_antisymm)
      (List.pairwise_mergeSort Text.pairLe_trans Text.pairLe_total others)
      (List.pairwise_mergeSort Text.pairLe_trans Text.pairLe_total labels) ?_
    exact (List.mergeSort_perm others _).trans (h.trans (List.mergeSort_perm labels _).symm)

/-! ## What calls add -/

/-- The calls since everything was last forgotten. -/
def sinceReset (calls : List Call) : List Call := calls.rtakeWhile fun x => !x.isReset

/-- What a call adds to the counter of a name with labels, which may come in any order. -/
def Call.amountWith (name : String) (labels : Labels) (x : Call) : Nat :=
  match x.operation with
  | .increment other n others => if other = name ∧ others.Perm labels then n else 0
  | .security type _ _ => if Name.securityEvents type = name ∧ labels = [] then 1 else 0
  | _ => 0

/-- What calls add to the counter of a name with labels. -/
def amountWith (name : String) (labels : Labels) (calls : List Call) : Nat :=
  (calls.map (Call.amountWith name labels)).sum

theorem amountWith_concat (name : String) (labels : Labels) (calls : List Call) (x : Call) :
    amountWith name labels (calls ++ [x]) = amountWith name labels calls + x.amountWith name labels := by
  simp [amountWith]

theorem amountIn_concat (name : String) (calls : List Call) (x : Call) :
    amountIn name (calls ++ [x]) = amountIn name calls + x.amount name := by
  simp [amountIn]

namespace Collector

variable (c : Collector) (name : String) {k : Nat} {x : Call}

/-- An increment raises the counter of its name whose labels are a permutation of its own. -/
theorem counter_increment_perm (labels : Labels) (h : c.counter name labels = k % counterBound)
    (other : String) (n : Nat) (others : Labels) (time : Int) :
    (c.increment other n others time).counter name labels =
      (k + if other = name ∧ others.Perm labels then n else 0) % counterBound := by
  by_cases hname : other = name
  · subst hname
    rw [counter_increment]
    by_cases hperm : others.Perm labels
    · have hsame : Key.of other others = Key.of other labels := Key.of_eq_of_iff.2 ⟨rfl, hperm⟩
      have hvalue : c.counter other others = c.counter other labels :=
        congrArg (fun key => (c.counters.get? key).getD 0) hsame
      rw [if_pos hsame.symm, if_pos ⟨rfl, hperm⟩, hvalue, h, Nat.mod_add_mod]
    · rw [if_neg fun hsame => hperm (Key.of_eq_of_iff.1 hsame.symm).2, if_neg fun hboth => hperm hboth.2]
      exact h
  · rw [counter_increment_of_name_ne _ _ _ _ _ (Ne.symm hname), if_neg fun hsame => hname hsame.1]
    exact h

theorem counter_perform (hx : x.isReset = false) (labels : Labels)
    (h : c.counter name labels = k % counterBound) :
    (c.perform x).counter name labels = (k + x.amountWith name labels) % counterBound := by
  obtain ⟨time, operation⟩ := x
  cases operation with
  | increment other n others => exact c.counter_increment_perm name labels h other n others time
  | security type client details =>
    refine (c.counter_increment_perm name labels h (Name.securityEvents type) 1 [] time).trans ?_
    unfold Call.amountWith
    simp only [List.nil_perm]
  | setGauge other value others | observe other value others => exact h
  | reset => cases hx

theorem counterTotal_increment_any (h : c.counterTotal name = k % counterBound)
    (other : String) (n : Nat) (others : Labels) (time : Int) :
    (c.increment other n others time).counterTotal name =
      (k + if other = name then n else 0) % counterBound := by
  by_cases hname : other = name
  · subst hname
    rw [counterTotal_increment, if_pos rfl, h, Nat.mod_add_mod]
  · rw [counterTotal_eq_sum, family_increment_of_ne _ _ _ _ _ hname, ← counterTotal_eq_sum,
      if_neg hname]
    exact h

theorem counterTotal_perform (hx : x.isReset = false) (h : c.counterTotal name = k % counterBound) :
    (c.perform x).counterTotal name = (k + x.amount name) % counterBound := by
  obtain ⟨time, operation⟩ := x
  cases operation with
  | increment other n others => exact c.counterTotal_increment_any name h other n others time
  | security type client details =>
    exact c.counterTotal_increment_any name h (Name.securityEvents type) 1 [] time
  | setGauge other value others | observe other value others => exact h
  | reset => cases hx

end Collector

/-! ## What is counted by time -/

/-- The intervals are in order, and those of a name hold no more than an amount. -/
structure Recent (r : Rolling) (amount : String → Nat) : Prop where
  ordered : Rolling.Ordered r.buckets
  held : ∀ name, Rolling.held r.buckets name (fun _ => true) ≤ amount name

namespace Recent

variable {r : Rolling} {amount : String → Nat}

theorem of_empty (h : r.buckets = []) (amount : String → Nat) : Recent r amount :=
  ⟨h ▸ List.Pairwise.nil, fun _ => h ▸ Nat.zero_le _⟩

theorem mono (h : Recent r amount) {more : String → Nat} (hle : ∀ name, amount name ≤ more name) :
    Recent r more := ⟨h.ordered, fun name => (h.held name).trans (hle name)⟩

/-- What is recorded is held at most once, and what is forgotten only makes it less. -/
theorem record (h : Recent r amount) (name : String) (n : Nat) (time : Int) :
    Recent (r.record name n time) fun other => amount other + if name = other then n else 0 := by
  refine ⟨Rolling.ordered_record h.ordered name n time, fun other => ?_⟩
  have hheld := h.held other
  by_cases hlate : r.indexOf time ≤ r.horizon time
  · rw [Rolling.record_of_late hlate]
    exact hheld.trans (Nat.le_add_right _ _)
  · have hforgets := Rolling.held_mono r.buckets other
      (p := fun i => true && decide (r.horizon time < i)) (q := fun _ => true) fun _ _ => rfl
    rw [Rolling.held_record h.ordered (not_le.1 hlate)]
    simp only [true_and, eq_comm (a := other)]
    omega

/-- A sum since a time is no more than the amount of the name. -/
theorem sumSince_le (h : Recent r amount) (name : String) (time : Int) :
    r.sumSince name time ≤ amount name := by
  rw [Rolling.sumSince_of_ordered h.ordered]
  exact (Nat.mod_le _ _).trans ((Rolling.held_mono _ _ fun _ _ => rfl).trans (h.held name))

end Recent

theorem Collector.recent_perform {c : Collector} {amount : String → Nat} (h : Recent c.rates amount)
    {x : Call} (hx : x.isReset = false) :
    Recent (c.perform x).rates fun name => amount name + x.amount name := by
  obtain ⟨time, operation⟩ := x
  rw [rates_perform c hx]
  cases operation with
  | increment name n labels =>
    unfold Call.entry?
    dsimp only
    split
    · exact h.record name n (secondOf time)
    · exact h.mono fun _ => Nat.le_add_right _ _
  | security type client details | setGauge name value labels | observe name value labels =>
    exact h.mono fun _ => Nat.le_add_right _ _
  | reset => cases hx

/-! ## Every run -/

/-- Each counter is what the calls since everything was last forgotten add to it, as a word, and so is the sum
of a name over all labels. -/
structure Logged (calls : List Call) (c : Collector) : Prop where
  counter : ∀ name labels,
    c.counter name labels = amountWith name labels (sinceReset calls) % counterBound
  total : ∀ name, c.counterTotal name = amountIn name (sinceReset calls) % counterBound

/-- What calls keep: both stores follow the calls since everything was last forgotten. -/
structure Told (calls : List Call) (c : Collector) : Prop extends Logged calls c where
  recent : Recent c.rates fun name => amountIn name (sinceReset calls)

namespace Told

variable {calls : List Call} {c : Collector}

theorem begin (hcalls : sinceReset calls = []) (hcounters : c.counters = .empty)
    (hrates : c.rates.buckets = []) : Told calls c := by
  refine ⟨⟨fun name labels => ?_, fun name => ?_⟩, .of_empty hrates _⟩
  · rw [hcalls, Collector.counter, hcounters]
    rfl
  · rw [hcalls, Collector.counterTotal, hcounters]
    rfl

theorem perform (h : Told calls c) (x : Call) : Told (calls ++ [x]) (c.perform x) := by
  by_cases hx : x.isReset = true
  · have hforgets : c.perform x = c.reset := by
      obtain ⟨time, operation⟩ := x
      cases operation <;> first | rfl | cases hx
    rw [hforgets]
    exact begin (List.rtakeWhile_concat_neg _ _ _ (by simp [hx])) rfl rfl
  · rw [Bool.not_eq_true] at hx
    have hsince : sinceReset (calls ++ [x]) = sinceReset calls ++ [x] :=
      List.rtakeWhile_concat_pos _ _ _ (by simp [hx])
    refine ⟨⟨fun name labels => ?_, fun name => ?_⟩, ?_⟩
    · rw [hsince, amountWith_concat]
      exact c.counter_perform name hx labels (h.counter name labels)
    · rw [hsince, amountIn_concat]
      exact c.counterTotal_perform name hx (h.total name)
    · simp only [hsince, amountIn_concat]
      exact Collector.recent_perform h.recent hx

end Told

theorem told_exec (config : Metrics.Config) (calls : List Call) :
    Told calls ((Collector.ofConfig config).exec calls) := by
  induction calls using List.reverseRecOn with
  | nil =>
    refine .begin rfl rfl ?_
    show (Rolling.ofSpan _).buckets = []
    unfold Rolling.ofSpan
    dsimp only
    split <;> rfl
  | append_singleton calls x ih =>
    unfold Collector.exec at *
    rw [List.foldl_append]
    exact ih.perform x

/-- A collector against its calls: counters are as in `Logged`; `windowed`, as long as the sum of a name fits a
word, no count of it since a time is greater; `forgotten`, and once everything is forgotten there is none. -/
structure Counted (calls : List Call) (c : Collector) : Prop extends Logged calls c where
  windowed : ∀ name since, amountIn name (sinceReset calls) < counterBound →
    c.windowed name since ≤ c.counterTotal name
  forgotten : ∀ name since, c.reset.windowed name since = 0

/-- **Counters equal the log of increments**, and what is counted by time is a part of it, whatever was called
and in whatever order. -/
theorem exec_counted (config : Metrics.Config) (calls : List Call) :
    Counted calls ((Collector.ofConfig config).exec calls) := by
  have htold := told_exec config calls
  refine ⟨htold.toLogged, fun name since hfits => ?_, fun _ _ => rfl⟩
  rw [htold.total, Nat.mod_eq_of_lt hfits]
  exact htold.recent.sumSince_le name (secondOf since)

end Metrics

end Ingress
