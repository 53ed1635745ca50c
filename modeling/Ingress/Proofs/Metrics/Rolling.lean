import Mathlib
import Ingress.Metrics.Rolling

/-!
# What rolling counts hold

An interval is forgotten once a later amount lies more than the kept number of intervals after it,
and an amount that comes too late for its interval is dropped. Both happen to the same amounts: what
is held depends on which amounts were recorded, and not on their order.

* `Entry` : an amount under a name at a time, with `Rolling.recordAll`, any number of them;
* `held` : the amounts of a name in the intervals that a test selects;
* `Lasts` : no entry lies as much as the kept intervals after an interval;
* `Follows` : the intervals are in order, the newest is that of the newest entry, and what is held is
  what entries whose interval lasts add up to (`Follows.record`, `follows_recordAll`);
* `sumSince_recordAll` : a sum, as a sum over the entries.
-/

namespace Ingress.Metrics

/-! ## Tests that hold of the front of a list -/

section Front

variable {α : Type} {p : α → Bool} {l : List α}

theorem takeWhile_eq_filter (h : l.Pairwise fun a b => p b = true → p a = true) :
    l.takeWhile p = l.filter p := by
  induction l with
  | nil => rfl
  | cons a rest ih =>
    obtain ⟨ha, hrest⟩ := List.pairwise_cons.1 h
    by_cases hp : p a = true
    · rw [List.takeWhile_cons_of_pos hp, List.filter_cons_of_pos hp, ih hrest]
    · have hnone : rest.filter p = [] :=
        List.filter_eq_nil_iff.2 fun b hb hpb => hp (ha b hb hpb)
      rw [List.takeWhile_cons_of_neg hp, List.filter_cons_of_neg hp, hnone]

theorem dropWhile_eq_filter (h : l.Pairwise fun a b => p b = true → p a = true) :
    l.dropWhile p = l.filter fun a => !p a := by
  induction l with
  | nil => rfl
  | cons a rest ih =>
    obtain ⟨ha, hrest⟩ := List.pairwise_cons.1 h
    by_cases hp : p a = true
    · rw [List.dropWhile_cons_of_pos hp, List.filter_cons_of_neg (by simpa using hp), ih hrest]
    · have hall : (a :: rest).filter (fun b => !p b) = a :: rest := by
        refine List.filter_eq_self.2 fun b hb => ?_
        rcases List.mem_cons.1 hb with rfl | hb
        · simpa using hp
        · simpa using mt (ha b hb) hp
      rw [List.dropWhile_cons_of_neg hp, hall]

end Front

/-! ## Amounts -/

/-- An amount under a name at a time in seconds. -/
structure Entry where
  name : String
  amount : Nat
  time : Int

def Bucket.amount (b : Bucket) (name : String) : Nat := (b.counts.get? name).getD 0

namespace Rolling

def recordAll (r : Rolling) (entries : List Entry) : Rolling :=
  entries.foldl (fun r e => r.record e.name e.amount e.time) r

/-- The amounts of a name in the intervals that a test selects. -/
def held (buckets : List Bucket) (name : String) (p : Int → Bool) : Nat :=
  ((buckets.filter fun b => p b.index).map fun b => b.amount name).sum

/-- The intervals are in order. -/
def Ordered (buckets : List Bucket) : Prop := buckets.Pairwise fun a b => a.index < b.index

theorem held_cons (b : Bucket) (rest : List Bucket) (name : String) (p : Int → Bool) :
    held (b :: rest) name p = (if p b.index then b.amount name else 0) + held rest name p := by
  unfold held
  rw [List.filter_cons]
  split
  · rw [List.map_cons, List.sum_cons]
  · rw [Nat.zero_add]

theorem amount_new (index : Int) (name other : String) (n : Nat) :
    Bucket.amount ⟨index, Table.empty.insert name n⟩ other = if other = name then n else 0 := by
  unfold Bucket.amount
  rw [Table.get?_insert]
  split <;> rfl

theorem amount_alter (b : Bucket) (name other : String) (n : Nat) :
    Bucket.amount { b with counts := b.counts.alter name fun old => old.getD 0 + n } other =
      b.amount other + if other = name then n else 0 := by
  unfold Bucket.amount
  rw [Table.get?_alter]
  split
  · next h => rw [h, Option.getD_some]
  · rfl

/-- One more amount is held in its interval, whatever test selects that. -/
theorem held_addAt (name : String) (n : Nat) (index : Int) (buckets : List Bucket) (other : String)
    (p : Int → Bool) : held (addAt name n index buckets) other p =
      held buckets other p + if p index ∧ other = name then n else 0 := by
  have hsplit : (if p index ∧ other = name then n else 0) =
      if p index then (if other = name then n else 0) else 0 := by
    split <;> simp_all
  rw [hsplit]
  induction buckets with
  | nil =>
    show held [_] other p = _
    rw [held_cons, amount_new]
    exact Nat.add_comm _ _
  | cons b rest ih =>
    unfold addAt
    split
    · rw [held_cons, ih, held_cons, Nat.add_assoc]
    · split
      · next heq =>
        rw [held_cons, amount_alter, held_cons, ← heq]
        split <;> omega
      · rw [held_cons, amount_new]
        exact Nat.add_comm _ _

theorem mem_indices_addAt {name : String} {n : Nat} {index i : Int} {buckets : List Bucket} :
    i ∈ (addAt name n index buckets).map Bucket.index ↔ i = index ∨ i ∈ buckets.map Bucket.index := by
  induction buckets with
  | nil => simp [addAt]
  | cons b rest ih =>
    unfold addAt
    split
    · rw [List.map_cons, List.mem_cons, ih, List.map_cons, List.mem_cons]
      exact or_left_comm
    · split
      · next heq => simp [heq]
      · simp

theorem ordered_addAt (name : String) (n : Nat) (index : Int) {buckets : List Bucket}
    (h : Ordered buckets) : Ordered (addAt name n index buckets) := by
  induction buckets with
  | nil => exact List.pairwise_singleton _ _
  | cons b rest ih =>
    obtain ⟨hb, hrest⟩ := List.pairwise_cons.1 h
    unfold addAt
    split
    · next hlt =>
      refine List.pairwise_cons.2 ⟨fun c hc => ?_, ih hrest⟩
      rcases mem_indices_addAt.1 (List.mem_map_of_mem hc) with heq | hold
      · rw [heq]; exact hlt
      · obtain ⟨c', hc', heq⟩ := List.mem_map.1 hold
        rw [← heq]; exact hb c' hc'
    · split
      · exact List.pairwise_cons.2 ⟨hb, hrest⟩
      · refine List.pairwise_cons.2 ⟨fun c hc => ?_, h⟩
        rcases List.mem_cons.1 hc with rfl | hc
        · show index < c.index
          omega
        · have := hb c hc
          show index < c.index
          omega

/-- Of intervals in order those up to one are in front. -/
theorem dropWhile_of_ordered {buckets : List Bucket} (h : Ordered buckets) (m : Int) :
    (buckets.dropWhile fun b => b.index ≤ m) = buckets.filter fun b => decide (m < b.index) := by
  have hfront : buckets.Pairwise fun a b => decide (b.index ≤ m) = true →
      decide (a.index ≤ m) = true := h.imp fun hab hb => by
    rw [decide_eq_true_eq] at hb ⊢
    omega
  rw [dropWhile_eq_filter hfront]
  refine List.filter_congr fun b _ => ?_
  rw [← decide_not, decide_eq_decide]
  omega

theorem held_filter (buckets : List Bucket) (name : String) (p q : Int → Bool) :
    held (buckets.filter fun b => q b.index) name p = held buckets name fun i => p i && q i := by
  unfold held
  rw [List.filter_filter]

/-- The sum since a time is what the intervals from that of the time on hold. -/
theorem sumSince_of_ordered {r : Rolling} (h : Ordered r.buckets) (name : String) (time : Int) :
    r.sumSince name time =
      held r.buckets name (fun i => decide (r.indexOf time ≤ i)) % 2 ^ 64 := by
  have hback : r.buckets.reverse.Pairwise fun a b => decide (r.indexOf time ≤ b.index) = true →
      decide (r.indexOf time ≤ a.index) = true :=
    List.pairwise_reverse.2 (h.imp fun hab hb => by
      rw [decide_eq_true_eq] at hb ⊢
      omega)
  unfold sumSince held
  dsimp only
  rw [takeWhile_eq_filter hback, List.filter_reverse, List.map_reverse, ← List.sum_eq_foldl,
    List.sum_reverse]
  rfl

/-! ## The newest interval -/

section Newest

variable {buckets : List Bucket} {index : Int}

/-- The newest interval is up to a bound when all are, and the one that is to be added. -/
theorem newest_le_iff (h : Ordered buckets) (index m : Int) :
    newest buckets index ≤ m ↔ index ≤ m ∧ ∀ i ∈ buckets.map Bucket.index, i ≤ m := by
  unfold newest
  split
  · next b hb =>
    obtain ⟨front, rfl⟩ := List.getLast?_eq_some_iff.1 hb
    have hfront : ∀ c ∈ front, c.index < b.index := fun c hc =>
      (List.pairwise_append.1 h).2.2 c hc b (List.mem_singleton_self b)
    rw [Int.max_le, and_comm, List.forall_mem_map, List.forall_mem_append, List.forall_mem_singleton]
    refine and_congr_right fun _ => ⟨fun hm => ⟨fun c hc => ?_, hm⟩, fun hall => hall.2⟩
    have := hfront c hc
    omega
  · next hnone =>
    rw [List.getLast?_eq_none_iff.1 hnone]
    simp

theorem newest_mem (buckets : List Bucket) (index : Int) :
    newest buckets index = index ∨ newest buckets index ∈ buckets.map Bucket.index := by
  unfold newest
  split
  · next b hb =>
    rcases max_choice b.index index with heq | heq
    · rw [heq]
      exact .inr (List.mem_map_of_mem (List.mem_of_getLast? hb))
    · exact .inl heq
  · exact .inl rfl

end Newest

/-! ## Entries -/

/-- No entry lies as much as the kept intervals after an interval. -/
def Lasts (r : Rolling) (entries : List Entry) (i : Int) : Prop :=
  ∀ e ∈ entries, r.indexOf e.time < i + r.kept

instance (r : Rolling) (entries : List Entry) (i : Int) : Decidable (Lasts r entries i) :=
  inferInstanceAs (Decidable (∀ e ∈ entries, r.indexOf e.time < i + r.kept))

/-- The amounts of a name in the entries whose interval a test selects. -/
def recorded (r : Rolling) (entries : List Entry) (name : String) (p : Int → Bool) : Nat :=
  ((entries.filter fun e => e.name == name && p (r.indexOf e.time)).map Entry.amount).sum

theorem recorded_append_singleton (r : Rolling) (entries : List Entry) (e : Entry) (name : String)
    (p : Int → Bool) : recorded r (entries ++ [e]) name p =
      recorded r entries name p + if p (r.indexOf e.time) ∧ name = e.name then e.amount else 0 := by
  unfold recorded
  rw [List.filter_append, List.map_append, List.sum_append, List.filter_singleton]
  by_cases hname : e.name = name
  · by_cases hp : p (r.indexOf e.time) = true <;> simp [hname, hp]
  · have hother : (e.name == name) = false := by simpa using hname
    simp [hother, Ne.symm hname]

theorem lasts_append_singleton {r : Rolling} {entries : List Entry} {e : Entry} {i : Int} :
    Lasts r (entries ++ [e]) i ↔ Lasts r entries i ∧ r.indexOf e.time < i + r.kept := by
  unfold Lasts
  rw [List.forall_mem_append, List.forall_mem_singleton]

/-- The intervals are in order, the newest is that of the newest entry, and what is held is what the
entries whose interval lasts add up to. -/
structure Follows (r : Rolling) (entries : List Entry) : Prop where
  ordered : Ordered r.buckets
  newest : ∀ m : Int,
    (∀ i ∈ r.buckets.map Bucket.index, i ≤ m) ↔ ∀ e ∈ entries, r.indexOf e.time ≤ m
  held : ∀ name p,
    held r.buckets name p = recorded r entries name fun i => p i && decide (Lasts r entries i)

namespace Follows

variable {r : Rolling} {entries : List Entry}

/-- An interval lies within the kept ones up to the newest when it lasts. -/
theorem sub_lt_iff (h : Follows r entries) (e : Entry) (i : Int) :
    Rolling.newest r.buckets (r.indexOf e.time) - r.kept < i ↔ Lasts r (entries ++ [e]) i := by
  have hnewest := newest_le_iff h.ordered (r.indexOf e.time) (i + r.kept - 1)
  rw [h.newest] at hnewest
  rw [lasts_append_singleton]
  constructor
  · intro hlt
    obtain ⟨hnew, hold⟩ := hnewest.1 (by omega)
    exact ⟨fun s hs => by have := hold s hs; omega, by omega⟩
  · rintro ⟨hold, hnew⟩
    have := hnewest.2 ⟨by omega, fun s hs => by have := hold s hs; omega⟩
    omega

/-- An amount whose interval does not last is dropped, and nothing is forgotten for it. -/
theorem drop (h : Follows r entries) (hkept : 0 < r.kept) {e : Entry}
    (hlate : ¬ Lasts r (entries ++ [e]) (r.indexOf e.time)) : Follows r (entries ++ [e]) := by
  rw [lasts_append_singleton, not_and] at hlate
  -- the interval of the entry itself is not too far ahead, so that of an earlier one is
  obtain ⟨s, hs, hafter⟩ : ∃ s ∈ entries, r.indexOf e.time + r.kept ≤ r.indexOf s.time := by
    by_contra hnone
    push Not at hnone
    exact hlate hnone (by omega)
  refine ⟨h.ordered, fun m => ?_, fun name p => ?_⟩
  · rw [h.newest, List.forall_mem_append, List.forall_mem_singleton]
    refine ⟨fun hall => ⟨hall, ?_⟩, fun hall => hall.1⟩
    have := hall s hs
    omega
  · have hlasts : ∀ i, Lasts r (entries ++ [e]) i ↔ Lasts r entries i := fun i => by
      rw [lasts_append_singleton]
      refine ⟨fun hall => hall.1, fun hall => ⟨hall, ?_⟩⟩
      have := hall s hs
      omega
    have hself : ¬ Lasts r entries (r.indexOf e.time) := fun hall => by
      have := hall s hs
      omega
    simp only [hlasts, recorded_append_singleton, h.held]
    simp [hself]

/-- An amount is put in its place, and the intervals that do not last are forgotten. -/
theorem keep (h : Follows r entries) (hkept : 0 < r.kept) (e : Entry) :
    Follows { r with
      buckets := (addAt e.name e.amount (r.indexOf e.time) r.buckets).filter (fun b =>
        decide (Lasts r (entries ++ [e]) b.index)) } (entries ++ [e]) where
  ordered := (ordered_addAt e.name e.amount (r.indexOf e.time) h.ordered).sublist
    List.filter_sublist
  newest := fun m => by
    have hle := newest_le_iff h.ordered (r.indexOf e.time) m
    rw [h.newest] at hle
    show (∀ i ∈ List.map Bucket.index (List.filter _ _), i ≤ m) ↔
      ∀ s ∈ entries ++ [e], r.indexOf s.time ≤ m
    rw [List.forall_mem_append, List.forall_mem_singleton, and_comm, ← hle]
    constructor
    · -- the newest interval is kept
      intro hall
      have hin : Rolling.newest r.buckets (r.indexOf e.time) ∈
          (addAt e.name e.amount (r.indexOf e.time) r.buckets).map Bucket.index :=
        mem_indices_addAt.2 (newest_mem _ _)
      obtain ⟨b, hb, heq⟩ := List.mem_map.1 hin
      have hstays : Lasts r (entries ++ [e]) b.index := by
        rw [← h.sub_lt_iff e, heq]
        omega
      rw [← heq]
      exact hall _ (List.mem_map_of_mem (List.mem_filter.2 ⟨hb, by simpa using hstays⟩))
    · intro hm i hi
      obtain ⟨b, hb, rfl⟩ := List.mem_map.1 hi
      have hin := mem_indices_addAt.1 (List.mem_map_of_mem (List.mem_filter.1 hb).1)
      obtain ⟨hnew, hold⟩ := (newest_le_iff h.ordered (r.indexOf e.time) m).1 hm
      rcases hin with heq | hin
      · rw [heq]; exact hnew
      · exact hold _ hin
  held := fun name p => by
    -- what lasts with the entry has lasted without it
    have hboth : ∀ i, decide (Lasts r (entries ++ [e]) i) =
        (decide (Lasts r (entries ++ [e]) i) && decide (Lasts r entries i)) := fun i => by
      rw [← Bool.decide_and, decide_eq_decide, lasts_append_singleton]
      tauto
    show Rolling.held (List.filter _ _) name p =
      recorded r (entries ++ [e]) name fun i => p i && decide (Lasts r (entries ++ [e]) i)
    rw [held_filter (q := fun i => decide (Lasts r (entries ++ [e]) i)), held_addAt, h.held,
      recorded_append_singleton]
    simp only [Bool.and_assoc, ← hboth]

/-- One more amount, whenever its time. -/
theorem record (h : Follows r entries) (hkept : 0 < r.kept) (e : Entry) :
    Follows (r.record e.name e.amount e.time) (entries ++ [e]) := by
  have hlasts := h.sub_lt_iff e (r.indexOf e.time)
  unfold Rolling.record
  dsimp only
  split
  · next hle =>
    rw [← not_lt, hlasts] at hle
    exact h.drop hkept hle
  · have hkeep := h.keep hkept e
    rw [dropWhile_of_ordered (ordered_addAt _ _ _ h.ordered)]
    simp only [h.sub_lt_iff]
    exact hkeep

end Follows

theorem exists_record (r : Rolling) (name : String) (n : Nat) (time : Int) :
    ∃ buckets, r.record name n time = { r with buckets } := by
  unfold record
  dsimp only
  split
  · exact ⟨r.buckets, rfl⟩
  · exact ⟨_, rfl⟩

theorem follows_recordAll {r : Rolling} (hkept : 0 < r.kept) {before : List Entry}
    (h : Follows r before) (entries : List Entry) : ∃ buckets,
      r.recordAll entries = { r with buckets } ∧ Follows { r with buckets } (before ++ entries) := by
  induction entries generalizing r before with
  | nil => exact ⟨r.buckets, rfl, by rwa [List.append_nil]⟩
  | cons e rest ih =>
    obtain ⟨buckets, hrecord⟩ := exists_record r e.name e.amount e.time
    have hnext := h.record hkept e
    rw [hrecord] at hnext
    obtain ⟨buckets', hall, hfollows⟩ := ih (r := { r with buckets }) hkept hnext
    rw [List.append_assoc] at hfollows
    refine ⟨buckets', ?_, hfollows⟩
    show (r.record e.name e.amount e.time).recordAll rest = _
    rw [hrecord, hall]

theorem follows_clear (r : Rolling) : Follows r.clear [] :=
  ⟨List.Pairwise.nil, fun _ => by simp [clear], fun _ _ => rfl⟩

/-- **A sum since a time is that of the entries whose interval lasts, from the interval of the time
on**, in whatever order they came. -/
theorem sumSince_recordAll (r : Rolling) (hkept : 0 < r.kept) (entries : List Entry) (name : String)
    (since : Int) : (r.clear.recordAll entries).sumSince name since =
      recorded r entries name
        (fun i => decide (r.indexOf since ≤ i) && decide (Lasts r entries i)) % 2 ^ 64 := by
  obtain ⟨buckets, hall, hfollows⟩ := follows_recordAll (r := r.clear) hkept (follows_clear r) entries
  rw [hall, sumSince_of_ordered hfollows.ordered, hfollows.held]
  rfl

end Rolling

end Ingress.Metrics
