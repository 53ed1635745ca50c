import Ingress.Ledger
import Ingress.Proofs.Metrics.Rolling
import Mathlib

/-!
# Parts of a whole in rolling counts

Amounts of one time share their fate: all of them come too late, or all are put into one interval, and stay
together until it is forgotten. So where a part is never recorded without its whole, no interval holds more
parts than wholes, whichever intervals have been dropped or forgotten.

* `horizon` : the newest interval of which amounts are dropped or forgotten at a time;
* `recordAt` : one more of each of several names, at one time; `recordAt_cases` : none is held, or all are;
* `Shares parts whole r` : in the intervals that a test selects there are no more parts than wholes, whatever
  the test; `Shares.recordAt` : so it stays when every part comes with a whole;
* `Shares.sumSince_le` : the same for sums since a time;
* `Ledger.rates`, `rates_increment` : the rolling counts of a ledger, and what an increment does to them.
-/

namespace Ingress

namespace Metrics

namespace Rolling

/-! ## One amount -/

/-- The newest of the intervals whose amounts are dropped or forgotten when an amount is recorded at a
time. -/
def horizon (r : Rolling) (time : Int) : Int := newest r.buckets (r.indexOf time) - r.kept

variable {r : Rolling} {time : Int}

theorem record_of_late (h : r.indexOf time ≤ r.horizon time) (name : String) (n : Nat) :
    r.record name n time = r := if_pos h

theorem record_of_recent (hordered : Ordered r.buckets) (h : r.horizon time < r.indexOf time)
    (name : String) (n : Nat) : r.record name n time = { r with
      buckets := (addAt name n (r.indexOf time) r.buckets).filter fun b =>
        decide (r.horizon time < b.index) } := by
  have hfront := dropWhile_of_ordered (ordered_addAt name n (r.indexOf time) hordered) (r.horizon time)
  rw [← hfront]
  exact if_neg h.not_ge

theorem indexOf_record (r : Rolling) (name : String) (n : Nat) (time other : Int) :
    (r.record name n time).indexOf other = r.indexOf other := by
  obtain ⟨buckets, hrecord⟩ := exists_record r name n time
  rw [hrecord]
  rfl

theorem kept_record (r : Rolling) (name : String) (n : Nat) (time : Int) :
    (r.record name n time).kept = r.kept := by
  obtain ⟨buckets, hrecord⟩ := exists_record r name n time
  rw [hrecord]

theorem ordered_record (h : Ordered r.buckets) (name : String) (n : Nat) (time : Int) :
    Ordered (r.record name n time).buckets := by
  by_cases hlate : r.indexOf time ≤ r.horizon time
  · rwa [record_of_late hlate]
  · rw [record_of_recent h (not_le.1 hlate)]
    exact (ordered_addAt name n _ h).sublist List.filter_sublist

/-- An amount that is put in its place moves the horizon of its time no further. -/
theorem horizon_record (h : Ordered r.buckets) (name : String) (n : Nat) (time : Int) :
    (r.record name n time).horizon time = r.horizon time := by
  by_cases hlate : r.indexOf time ≤ r.horizon time
  · rw [record_of_late hlate]
  · have hrecent := not_le.1 hlate
    unfold horizon
    rw [kept_record, indexOf_record, sub_left_inj]
    refine eq_of_forall_ge_iff fun m => ?_
    rw [newest_le_iff (ordered_record h name n time), newest_le_iff h,
      record_of_recent h hrecent]
    refine and_congr_right fun hindex => ⟨fun hall i hi => ?_, fun hall i hi => ?_⟩
    · -- what is forgotten lies before the interval of the time
      by_cases hkept : r.horizon time < i
      · have hin : i ∈ (addAt name n (r.indexOf time) r.buckets).map Bucket.index :=
          mem_indices_addAt.2 (.inr hi)
        obtain ⟨b, hb, rfl⟩ := List.mem_map.1 hin
        exact hall _ (List.mem_map_of_mem (List.mem_filter.2 ⟨hb, decide_eq_true hkept⟩))
      · omega
    · obtain ⟨b, hb, rfl⟩ := List.mem_map.1 hi
      rcases mem_indices_addAt.1 (List.mem_map_of_mem (List.mem_filter.1 hb).1) with heq | hold
      · rwa [heq]
      · exact hall _ hold

/-- An amount that is put in its place is held there, and what lies up to the horizon is forgotten. -/
theorem held_record (hordered : Ordered r.buckets) (h : r.horizon time < r.indexOf time)
    (name : String) (n : Nat) (other : String) (p : Int → Bool) :
    held (r.record name n time).buckets other p =
      held r.buckets other (fun i => p i && decide (r.horizon time < i)) +
        if p (r.indexOf time) ∧ other = name then n else 0 := by
  rw [record_of_recent hordered h, held_filter (q := fun i => decide (r.horizon time < i)), held_addAt]
  simp only [h, decide_true, Bool.and_true]

theorem held_mono (buckets : List Bucket) (name : String) {p q : Int → Bool}
    (h : ∀ i, p i = true → q i = true) : held buckets name p ≤ held buckets name q := by
  unfold held
  refine (List.Sublist.map _ ?_).sum_le_sum fun _ _ => Nat.zero_le _
  exact List.monotone_filter_right buckets fun b => h b.index

/-! ## Amounts of one time -/

/-- One more of each of several names, at one time. -/
def recordAt (r : Rolling) (names : List String) (time : Int) : Rolling :=
  r.recordAll (names.map fun name => ⟨name, 1, time⟩)

@[simp] theorem recordAt_nil (r : Rolling) (time : Int) : r.recordAt [] time = r := rfl

theorem recordAt_cons (r : Rolling) (name : String) (names : List String) (time : Int) :
    r.recordAt (name :: names) time = (r.record name 1 time).recordAt names time := rfl

theorem recordAt_append (r : Rolling) (names names' : List String) (time : Int) :
    r.recordAt (names ++ names') time = (r.recordAt names time).recordAt names' time := by
  unfold recordAt recordAll
  rw [List.map_append, List.foldl_append]

theorem ordered_recordAt (names : List String) (time : Int) : ∀ {r : Rolling}, Ordered r.buckets →
    Ordered (r.recordAt names time).buckets := by
  induction names with
  | nil => exact id
  | cons name rest ih => exact fun h => ih (ordered_record h name 1 time)

/-- From `r` to `r'` the intervals without `q` are forgotten, and that of an index holds one more of each
name. -/
def Gains (r r' : Rolling) (q : Int → Bool) (index : Int) (names : List String) : Prop :=
  ∀ name p, held r'.buckets name p =
    held r.buckets name (fun i => p i && q i) + if p index then names.count name else 0

/-- Amounts of one time are dropped together, or held together in one interval. -/
theorem recordAt_cases (names : List String) (time : Int) : ∀ {r : Rolling}, Ordered r.buckets →
    r.recordAt names time = r ∨ ∃ q, Gains r (r.recordAt names time) q (r.indexOf time) names := by
  intro r hordered
  by_cases hlate : r.indexOf time ≤ r.horizon time
  · refine .inl ?_
    induction names with
    | nil => rfl
    | cons name rest ih => rw [recordAt_cons, record_of_late hlate, ih]
  · refine .inr ?_
    rw [not_le] at hlate
    suffices h : ∃ q, q (r.indexOf time) = true ∧
        Gains r (r.recordAt names time) q (r.indexOf time) names from h.imp fun _ => And.right
    induction names generalizing r with
    | nil => exact ⟨fun _ => true, rfl, fun name p => by simp⟩
    | cons name rest ih =>
      have hnext : (r.record name 1 time).horizon time < (r.record name 1 time).indexOf time := by
        rwa [horizon_record hordered, indexOf_record]
      obtain ⟨q, hq, hgains⟩ := ih (ordered_record hordered name 1 time) hnext
      rw [indexOf_record] at hq hgains
      refine ⟨fun i => q i && decide (r.horizon time < i), by simpa [hq] using hlate, fun other p => ?_⟩
      rw [recordAt_cons, hgains, held_record hordered hlate, List.count_cons]
      simp only [Bool.and_assoc, hq, Bool.and_true, Nat.add_assoc, Nat.add_left_cancel_iff, beq_iff_eq,
        eq_comm (a := name)]
      split <;> simp_all [Nat.add_comm]

theorem held_recordAt_le (h : Ordered r.buckets) (names : List String) (time : Int) (name : String)
    (p : Int → Bool) : held (r.recordAt names time).buckets name p ≤
      held r.buckets name p + names.count name := by
  rcases recordAt_cases names time h with hsame | ⟨q, hgains⟩
  · rw [hsame]
    exact Nat.le_add_right _ _
  · have hforgets := held_mono r.buckets name (p := fun i => p i && q i) (q := p)
      fun i hi => (Bool.and_eq_true_iff.1 hi).1
    rw [hgains]
    split <;> omega

/-! ## Parts and wholes -/

/-- The intervals are in order, and those that a test selects hold no more parts than wholes, whatever the
test. -/
structure Shares (parts : List String) (whole : String) (r : Rolling) : Prop where
  ordered : Ordered r.buckets
  le : ∀ p, (parts.map fun part => held r.buckets part p).sum ≤ held r.buckets whole p

namespace Shares

variable {parts : List String} {whole : String}

theorem of_empty (h : r.buckets = []) : Shares parts whole r := by
  refine ⟨h ▸ List.Pairwise.nil, fun p => ?_⟩
  rw [h]
  exact (List.sum_eq_zero (List.forall_mem_map.2 fun _ _ => rfl)).le

/-- Of one time, too, there are no more parts than wholes. -/
theorem recordAt (h : Shares parts whole r) {names : List String}
    (hnames : (parts.map names.count).sum ≤ names.count whole) (time : Int) :
    Shares parts whole (r.recordAt names time) := by
  refine ⟨ordered_recordAt names time h.ordered, fun p => ?_⟩
  rcases recordAt_cases names time h.ordered with hsame | ⟨q, hgains⟩
  · rw [hsame]
    exact h.le p
  · have hheld := h.le fun i => p i && q i
    simp only [hgains _ p, List.sum_map_add]
    split
    · exact Nat.add_le_add hheld hnames
    · simpa using hheld

/-- As long as the wholes fit a word, no sum since a time has more parts than wholes. -/
theorem sumSince_le (h : Shares parts whole r)
    (hfits : held r.buckets whole (fun _ => true) < 2 ^ 64) (time : Int) :
    (parts.map fun part => r.sumSince part time).sum ≤ r.sumSince whole time := by
  have hall := held_mono r.buckets whole (p := fun i => decide (r.indexOf time ≤ i)) (q := fun _ => true)
    fun _ _ => rfl
  rw [sumSince_of_ordered h.ordered whole, Nat.mod_eq_of_lt (hall.trans_lt hfits)]
  refine (List.sum_le_sum fun part _ => ?_).trans (h.le _)
  rw [sumSince_of_ordered h.ordered]
  exact Nat.mod_le _ _

end Shares

end Rolling

/-- Of several names, those that are counted by time. -/
def tracked (names : List String) : List String := names.filter Name.rateTracked.contains

end Metrics

namespace Ledger

open Metrics

def rates (l : Ledger) : Rolling := l.metrics.rates

theorem rates_increment (l : Ledger) (name : String) (labels : Labels) :
    (l.increment name 1 labels).rates = l.rates.recordAt (tracked [name]) (secondOf l.clock) := by
  show (if Name.rateTracked.contains name then _ else _) = _
  unfold tracked
  rw [List.filter_singleton]
  cases Name.rateTracked.contains name <;> rfl

theorem rates_increment_of_untracked (l : Ledger) {name : String}
    (h : Name.rateTracked.contains name = false) (n : Nat) (labels : Labels) :
    (l.increment name n labels).rates = l.rates := by
  show (if Name.rateTracked.contains name then _ else _) = _
  rw [h]
  rfl

end Ledger

end Ingress
