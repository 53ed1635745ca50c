import Ingress.Proofs.RateLimit.Window
import Ingress.Proofs.Table
import Ingress.RateLimit.Limiter
import Mathlib

/-!
# The busiest clients

A listing gathers a report of every client that holds state, puts the reports in order, and cuts the list
off. The order is linear on the three keys by which it compares, and the last of them tells clients apart,
so the reports of any limiter can be put in order in one way only: how the clients are spread, and in which
order they are gathered, is not seen in a listing.

* `Precedes` : the order of reports, key by key;
* `place`, `busier_iff`, `precedes_iff` : the keys of a report as a place in a linear order;
* `reportsOf`, `ranking` : the reports of entries, and those of a limiter in order;
* `Ranks`, `ranks_mergeSort`, `ranks_unique` : a list of the reports of a limiter in order, and there is one;
* `topOf`, `topOf_eq` : a listing of what is gathered from parts;
* `Listed`, `top_listed` : the listings of a limiter.
-/

namespace Ingress.RateLimit

/-! ## The order of reports -/

namespace ClientReport

variable {a b : ClientReport}

/-- More admissions in the sustained window come first, then more rejections, then the lesser id. -/
def Precedes (a b : ClientReport) : Prop :=
  b.usage.sustained < a.usage.sustained ∨ a.usage.sustained = b.usage.sustained ∧
    (b.usage.rejections < a.usage.rejections ∨ a.usage.rejections = b.usage.rejections ∧
      a.client < b.client)

/-- The keys of a report; of the numbers, the greater ones come first. -/
def place (r : ClientReport) : ℕᵒᵈ ×ₗ ℕᵒᵈ ×ₗ String :=
  toLex (OrderDual.toDual r.usage.sustained, toLex (OrderDual.toDual r.usage.rejections, r.client))

theorem client_eq_of_place (h : a.place = b.place) : a.client = b.client :=
  congrArg (fun p => (ofLex (ofLex p).2).2) h

theorem precedes_iff : a.Precedes b ↔ a.place < b.place := by
  unfold Precedes place
  rw [Prod.Lex.toLex_lt_toLex, Prod.Lex.toLex_lt_toLex]
  rfl

theorem busier_iff : busier a b = true ↔ a.place ≤ b.place := by
  unfold busier Text.le place
  rw [Prod.Lex.toLex_le_toLex, Prod.Lex.toLex_le_toLex]
  show _ ↔ b.usage.sustained < a.usage.sustained ∨ a.usage.sustained = b.usage.sustained ∧
    (b.usage.rejections < a.usage.rejections ∨ a.usage.rejections = b.usage.rejections ∧
      a.client ≤ b.client)
  by_cases hsustained : a.usage.sustained = b.usage.sustained
  · by_cases hrejections : a.usage.rejections = b.usage.rejections
    · rw [if_neg (not_not_intro hsustained), if_neg (not_not_intro hrejections), decide_eq_true_eq, not_lt]
      simp only [hsustained, hrejections, lt_irrefl, false_or, true_and]
    · simp [hsustained, hrejections]
  · simp [hsustained]

theorem busier_total (a b : ClientReport) : (busier a b || busier b a) = true := by
  rw [Bool.or_eq_true, busier_iff, busier_iff]
  exact le_total _ _

theorem busier_trans (a b c : ClientReport) (hab : busier a b = true) (hbc : busier b c = true) :
    busier a c = true := busier_iff.2 ((busier_iff.1 hab).trans (busier_iff.1 hbc))

end ClientReport

open ClientReport

/-! ## Rankings -/

/-- The reports of entries at a time. -/
def reportsOf (cfg : RateLimit.Config) (now : Int) (entries : List (String × Client)) : List ClientReport :=
  entries.map fun e => ⟨e.1, (e.2.pruned cfg now).usage⟩

/-- The reports of a limiter at a time, in order. -/
def Limiter.ranking (l : Limiter) (now : Int) : List ClientReport :=
  (reportsOf l.config now l.clients.entries).mergeSort busier

/-- The reports of a limiter at a time: `ordered`, each before those that follow; `distinct`, one of each
client; `members`, those of the clients that hold state, with the usage that is read of them; `length`, as
many as there are. -/
structure Ranks (l : Limiter) (now : Int) (reports : List ClientReport) : Prop where
  ordered : reports.Pairwise Precedes
  distinct : (reports.map ClientReport.client).Nodup
  members : ∀ id u, ⟨id, u⟩ ∈ reports ↔ (l.usage id now).1 = some u
  length : reports.length = l.count

variable {l : Limiter} {now : Int}

/-- Reports of different clients are put in strict order. -/
theorem precedes_mergeSort {reports : List ClientReport}
    (h : (reports.map ClientReport.client).Nodup) : (reports.mergeSort busier).Pairwise Precedes := by
  have hdistinct : ((reports.mergeSort busier).map ClientReport.client).Nodup :=
    ((List.mergeSort_perm reports busier).map _).nodup_iff.2 h
  have hordered := List.pairwise_mergeSort busier_trans busier_total reports
  refine (hordered.and (List.pairwise_map.1 hdistinct)).imp fun ⟨hbusier, hne⟩ => ?_
  exact precedes_iff.2 ((busier_iff.1 hbusier).lt_of_ne (mt client_eq_of_place hne))

theorem fst_usage (l : Limiter) (id : String) (now : Int) :
    (l.usage id now).1 = (l.clients.get? id).map fun c => (c.pruned l.config now).usage := by
  unfold Limiter.usage
  cases l.clients.get? id <;> rfl

theorem mem_reportsOf {id : String} {u : Usage} :
    ⟨id, u⟩ ∈ reportsOf l.config now l.clients.entries ↔ (l.usage id now).1 = some u := by
  rw [fst_usage]
  constructor
  · intro h
    obtain ⟨e, he, heq⟩ := List.mem_map.1 h
    obtain ⟨rfl, rfl⟩ := ClientReport.mk.inj heq
    rw [Table.get?_of_mem he]
    rfl
  · intro h
    obtain ⟨c, hc, rfl⟩ := Option.map_eq_some_iff.1 h
    exact List.mem_map.2 ⟨(id, c), Table.mem_of_get? hc, rfl⟩

/-- In whatever order the reports are gathered, sorting puts them in order. -/
theorem ranks_mergeSort {gathered : List ClientReport}
    (h : gathered.Perm (reportsOf l.config now l.clients.entries)) :
    Ranks l now (gathered.mergeSort busier) := by
  have hperm := (List.mergeSort_perm gathered busier).trans h
  have hclients : (reportsOf l.config now l.clients.entries).map ClientReport.client =
      l.clients.entries.map Prod.fst := List.map_map
  have hdistinct : (gathered.map ClientReport.client).Nodup :=
    (h.map _).nodup_iff.2 (hclients ▸ l.clients.nodup)
  refine ⟨precedes_mergeSort hdistinct, ?_, fun id u => ?_, ?_⟩
  · exact ((List.mergeSort_perm gathered busier).map _).nodup_iff.2 hdistinct
  · exact hperm.mem_iff.trans mem_reportsOf
  · exact hperm.length_eq.trans (List.length_map _)

/-- The reports of a limiter can be put in order in one way only. -/
theorem ranks_unique {xs ys : List ClientReport} (hx : Ranks l now xs) (hy : Ranks l now ys) : xs = ys := by
  have hperm : xs.Perm ys := by
    refine (List.perm_ext_iff_of_nodup hx.distinct.of_map hy.distinct.of_map).2 fun ⟨id, u⟩ => ?_
    exact (hx.members id u).trans (hy.members id u).symm
  refine List.Perm.eq_of_pairwise (fun a b _ _ hab hba => ?_) hx.ordered hy.ordered hperm
  exact absurd (precedes_iff.1 hab) (precedes_iff.1 hba).not_gt

/-! ## Listings -/

theorem top_eq (l : Limiter) (limit : Nat) (now : Int) :
    (l.top limit now).1 = (l.ranking now).take limit := by
  have hreports : ((l.clients.map fun _ client => client.pruned l.config now).entries.map
      fun e => (⟨e.1, e.2.usage⟩ : ClientReport)) = reportsOf l.config now l.clients.entries :=
    List.map_map
  unfold Limiter.top Limiter.ranking
  rw [← hreports]

/-- A listing prunes the windows it reads, and what is read of them at that time is the same. -/
theorem usage_top (l : Limiter) (limit : Nat) (id : String) (now : Int) :
    ((l.top limit now).2.usage id now).1 = (l.usage id now).1 := by
  have hpruned (c : Client) : (c.pruned l.config now).pruned l.config now = c.pruned l.config now := by
    unfold Client.pruned
    simp only [prune_prune le_rfl]
  rw [fst_usage, fst_usage]
  show ((l.clients.map fun _ c => c.pruned l.config now).get? id).map _ = _
  rw [Table.get?_map, Option.map_map]
  refine congrArg (Option.map · _) (funext fun c => ?_)
  exact congrArg Client.usage (hpruned c)

/-- What a listing says of clients in parts, each of which is gathered in its own order. -/
def topOf (cfg : RateLimit.Config) (parts : List (List (String × Client))) (limit : Nat) (now : Int) :
    List ClientReport :=
  ((parts.flatMap (reportsOf cfg now)).mergeSort busier).take limit

/-- A listing does not show how the clients are spread over parts, nor the order of each part. -/
theorem topOf_eq {parts : List (List (String × Client))} (h : parts.flatten.Perm l.clients.entries)
    (limit : Nat) : topOf l.config parts limit now = (l.top limit now).1 := by
  have hgathered : (parts.flatMap (reportsOf l.config now)).Perm
      (reportsOf l.config now l.clients.entries) := by
    have hall : parts.flatMap (reportsOf l.config now) = reportsOf l.config now parts.flatten :=
      List.map_flatten.symm
    rw [hall]
    exact h.map _
  rw [topOf, top_eq, ranks_unique (ranks_mergeSort hgathered) (ranks_mergeSort (.refl _))]
  rfl

/-- The listings of a limiter at a time: `ranks` and `unique`, its reports can be put in order, and in one
way; `top`, a listing is the beginning of that; `settled`, and reads of usages what they were; `spread`, and
would say the same of the clients in parts, however they are spread and gathered. -/
structure Listed (l : Limiter) (now : Int) (reports : List ClientReport) : Prop where
  ranks : Ranks l now reports
  unique : ∀ others, Ranks l now others → others = reports
  top : ∀ limit, (l.top limit now).1 = reports.take (min limit l.count)
  settled : ∀ limit id, ((l.top limit now).2.usage id now).1 = (l.usage id now).1
  spread : ∀ parts : List (List (String × Client)), parts.flatten.Perm l.clients.entries →
    ∀ limit, topOf l.config parts limit now = (l.top limit now).1

/-- **A listing is the beginning of the one order of all clients**, whatever calls have led to the limiter,
at any time. -/
theorem top_listed (l : Limiter) (now : Int) : Listed l now (l.ranking now) := by
  have hranks : Ranks l now (l.ranking now) := ranks_mergeSort (.refl _)
  refine ⟨hranks, fun others hothers => ranks_unique hothers hranks, fun limit => ?_, fun limit id => ?_,
    fun parts hparts limit => topOf_eq hparts limit⟩
  · rw [top_eq, ← hranks.length, List.take_eq_take_iff]
    omega
  · exact usage_top l limit id now

end Ingress.RateLimit
