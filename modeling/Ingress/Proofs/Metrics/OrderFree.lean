import Mathlib
import Ingress.Proofs.Metrics.Lookback

/-!
# Rolling counts do not depend on the order of amounts

Amounts may come late, and what comes too late is dropped. Which amounts are dropped or forgotten is
decided by the newest interval alone, so a sum is a sum over the amounts themselves, in whatever order
they came.

* `newestOf`, `reference` : the newest interval of entries, and the sum that it leaves of them;
* `IsTrim` : the intervals are in order, no more than the kept ones, and close to the newest;
* `isTrim_record`, `isTrim_recordAll` : so they stay;
* `OrderFree`, `recordAll_orderFree` : sums of recorded entries against the reference.
-/

namespace Ingress.Metrics.Rolling

/-! ## The reference -/

/-- The interval of the newest entry. -/
def newestOf (r : Rolling) (entries : List Entry) : Option Int :=
  (entries.map fun e => r.indexOf e.time).max?

/-- The amounts of a name in the entries from the interval of a time on whose interval lies within the
kept ones up to the newest. -/
def reference (r : Rolling) (entries : List Entry) (name : String) (since : Int) : Nat :=
  match r.newestOf entries with
  | none => 0
  | some newest =>
    ((entries.filter fun e => e.name == name && (decide (r.indexOf since ≤ r.indexOf e.time) &&
      decide (newest - r.kept < r.indexOf e.time))).map Entry.amount).sum

/-- The amounts of a name, whenever they were recorded. -/
def totalOf (entries : List Entry) (name : String) : Nat :=
  ((entries.filter fun e => e.name == name).map Entry.amount).sum

variable {r : Rolling} {entries : List Entry}

theorem recorded_le_totalOf (r : Rolling) (entries : List Entry) (name : String) (p : Int → Bool) :
    r.recorded entries name p ≤ totalOf entries name := by
  have hpart : (entries.filter fun e => e.name == name && p (r.indexOf e.time)) =
      (entries.filter fun e => e.name == name).filter fun e => p (r.indexOf e.time) := by
    rw [List.filter_filter]
    exact List.filter_congr fun e _ => Bool.and_comm _ _
  unfold recorded totalOf
  rw [hpart]
  exact (List.filter_sublist.map _).sum_le_sum fun _ _ => Nat.zero_le _

/-- An interval lasts when it lies within the kept ones up to the newest. -/
theorem lasts_iff_of_newestOf {newest : Int} (h : r.newestOf entries = some newest) (i : Int) :
    Lasts r entries i ↔ newest - r.kept < i := by
  obtain ⟨hmem, hmax⟩ := List.max?_eq_some_iff.1 h
  rw [List.forall_mem_map] at hmax
  obtain ⟨e, he, hnewest⟩ := List.mem_map.1 hmem
  constructor
  · intro hall
    have := hall e he
    omega
  · intro hlt s hs
    have := hmax s hs
    omega

/-- The reference sums up the entries whose interval lasts. -/
theorem reference_eq_recorded (r : Rolling) (entries : List Entry) (name : String) (since : Int) :
    r.reference entries name since = r.recorded entries name
      (fun i => decide (r.indexOf since ≤ i) && decide (Lasts r entries i)) := by
  unfold reference
  cases hnewest : r.newestOf entries with
  | none =>
    obtain rfl : entries = [] := List.map_eq_nil_iff.1 (List.max?_eq_none_iff.1 hnewest)
    rfl
  | some newest =>
    unfold recorded
    simp only [lasts_iff_of_newestOf hnewest]

/-- The entries decide about the reference, and not their order. -/
theorem reference_perm {entries' : List Entry} (h : entries'.Perm entries) (name : String)
    (since : Int) : r.reference entries' name since = r.reference entries name since := by
  have hlasts : ∀ i, Lasts r entries' i ↔ Lasts r entries i := fun i =>
    ⟨fun hall e he => hall e (h.mem_iff.2 he), fun hall e he => hall e (h.mem_iff.1 he)⟩
  rw [reference_eq_recorded, reference_eq_recorded]
  simp only [hlasts]
  exact ((h.filter _).map _).sum_eq

/-! ## The intervals -/

/-- The intervals are in order, no more than the kept ones, and none of them lies as much as the kept
ones before another. -/
structure IsTrim (r : Rolling) : Prop where
  ordered : Ordered r.buckets
  length : (r.buckets.length : Int) ≤ r.kept
  recent : ∀ b ∈ r.buckets, ∀ c ∈ r.buckets, c.index - r.kept < b.index

/-- Intervals in order between two bounds are no more than there is room for. -/
theorem length_le_of_ordered {buckets : List Bucket} (h : Ordered buckets) {low high : Int}
    (hle : low ≤ high) (hbetween : ∀ b ∈ buckets, low < b.index ∧ b.index ≤ high) :
    (buckets.length : Int) ≤ high - low := by
  have hnodup : (buckets.map Bucket.index).Nodup :=
    List.pairwise_map.2 (h.imp fun hlt => hlt.ne)
  have hsub : (buckets.map Bucket.index).toFinset ⊆ Finset.Ioc low high := by
    intro i hi
    obtain ⟨b, hb, rfl⟩ := List.mem_map.1 (List.mem_toFinset.1 hi)
    exact Finset.mem_Ioc.2 (hbetween b hb)
  have hcard := Finset.card_le_card hsub
  rw [List.toFinset_card_of_nodup hnodup, List.length_map, Int.card_Ioc] at hcard
  omega

/-- Late entries that are dropped change nothing, and others leave the intervals close to the newest. -/
theorem isTrim_record (h : r.IsTrim) (hkept : 0 < r.kept) (name : String) (n : Nat) (time : Int) :
    (r.record name n time).IsTrim := by
  unfold record
  dsimp only
  split
  · exact h
  · have hordered := ordered_addAt name n (r.indexOf time) h.ordered
    have hnewest := (newest_le_iff h.ordered (r.indexOf time) _).1 le_rfl
    rw [dropWhile_of_ordered hordered]
    -- what is left lies between the bound at which intervals are forgotten and the newest one
    have hbetween : ∀ b ∈ (addAt name n (r.indexOf time) r.buckets).filter fun b =>
        decide (newest r.buckets (r.indexOf time) - r.kept < b.index),
        newest r.buckets (r.indexOf time) - r.kept < b.index ∧
          b.index ≤ newest r.buckets (r.indexOf time) := by
      intro b hb
      obtain ⟨hmem, hlow⟩ := List.mem_filter.1 hb
      refine ⟨of_decide_eq_true hlow, ?_⟩
      rcases mem_indices_addAt.1 (List.mem_map_of_mem hmem) with heq | hold
      · rw [heq]
        exact hnewest.1
      · exact hnewest.2 _ hold
    refine ⟨hordered.sublist List.filter_sublist, ?_, fun b hb c hc => ?_⟩
    · have hroom := length_le_of_ordered (hordered.sublist List.filter_sublist)
        (sub_le_self _ hkept.le) hbetween
      show (List.length (List.filter _ _) : Int) ≤ r.kept
      omega
    · have hlow := (hbetween b hb).1
      have hhigh := (hbetween c hc).2
      show c.index - r.kept < b.index
      omega

theorem isTrim_recordAll (hkept : 0 < r.kept) (h : r.IsTrim) (entries : List Entry) :
    (r.recordAll entries).IsTrim := by
  induction entries generalizing r with
  | nil => exact h
  | cons e rest ih =>
    obtain ⟨buckets, hrecord⟩ := exists_record r e.name e.amount e.time
    have hnext := isTrim_record h hkept e.name e.amount e.time
    rw [hrecord] at hnext
    show ((r.record e.name e.amount e.time).recordAll rest).IsTrim
    rw [hrecord]
    exact ih hkept hnext

/-! ## Every sequence of entries -/

/-- What is read of counts that have recorded entries: `sum`, the reference, as long as the amounts of the
name fit a word; `permuted`, the same for any order of the entries; `trim`, from intervals in form;
`cleared`, and the beginning again once they are cleared. -/
structure OrderFree (r : Rolling) (entries : List Entry) : Prop where
  sum : ∀ name since, totalOf entries name < 2 ^ 64 →
    (r.recordAll entries).sumSince name since = r.reference entries name since
  permuted : ∀ entries' : List Entry, entries'.Perm entries → ∀ name since,
    (r.recordAll entries').sumSince name since = (r.recordAll entries).sumSince name since
  trim : (r.recordAll entries).IsTrim
  cleared : (r.recordAll entries).clear = r

/-- **Rolling counts are order-free**, for any span that may be configured. -/
theorem recordAll_orderFree {span : Nat} (hspan : 1 ≤ span) (hbound : span ≤ 86400)
    (entries : List Entry) : OrderFree (ofSpan span) entries := by
  have hempty : (ofSpan span).buckets = [] := by rw [ofSpan_eq hspan hbound]
  have hkept : 0 < (ofSpan span).kept := by
    rw [ofSpan_eq hspan hbound]
    exact Int.lt_add_one_of_le (Int.ediv_nonneg (by omega) (by omega))
  generalize ofSpan span = r at hempty hkept
  have hclear : r.clear = r := by
    obtain ⟨width, kept, buckets⟩ := r
    exact congrArg (Rolling.mk width kept) hempty.symm
  have hsum : ∀ (entries : List Entry) (name : String) (since : Int),
      (r.recordAll entries).sumSince name since = r.reference entries name since % 2 ^ 64 := by
    intro entries name since
    rw [reference_eq_recorded, ← sumSince_recordAll r hkept, hclear]
  refine ⟨fun name since htotal => ?_, fun entries' hperm name since => ?_, ?_, ?_⟩
  · rw [hsum, reference_eq_recorded]
    exact Nat.mod_eq_of_lt ((recorded_le_totalOf r entries name _).trans_lt htotal)
  · rw [hsum, hsum, reference_perm hperm]
  · refine isTrim_recordAll hkept ⟨?_, ?_, ?_⟩ entries
    · rw [hempty]
      exact List.Pairwise.nil
    · rw [hempty]
      exact hkept.le
    · rw [hempty]
      exact List.forall_mem_nil _
  · obtain ⟨buckets, hall, -⟩ := follows_recordAll hkept (hclear ▸ follows_clear r) entries
    rw [hall]
    exact hclear

/-- Errors of a minute that come out of order, one of them too late. -/
def sampleEntries : List Entry :=
  [⟨"errors", 1, 1700000060⟩, ⟨"errors", 2, 1700000040⟩, ⟨"errors", 1000, 1699996460⟩,
    ⟨"received", 9, 1700000055⟩, ⟨"errors", 4, 1700000050⟩]

theorem sampleEntries_orderFree : 1 ≤ 60 ∧ 60 ≤ 86400 ∧ totalOf sampleEntries "errors" < 2 ^ 64 ∧
    ((ofSpan 60).recordAll sampleEntries).sumSince "errors" 1700000000 = 7 := by
  have htotal : totalOf sampleEntries "errors" < 2 ^ 64 := by decide +kernel
  have hfree : OrderFree (ofSpan 60) sampleEntries :=
    recordAll_orderFree (by decide) (by decide) sampleEntries
  refine ⟨by decide, by decide, htotal, ?_⟩
  rw [hfree.sum _ _ htotal]
  decide +kernel

end Ingress.Metrics.Rolling
