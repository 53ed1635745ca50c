import Mathlib
import Ingress.Health.Verdict
import Ingress.Proofs.Metrics.Run

/-!
# How far back a windowed count reaches

The health verdict counts over a window of `span` seconds that ends now. Amounts are kept by
intervals of `span / 60` seconds, and as many intervals are kept, besides the newest, as fit into the
span. A span that is no multiple of the interval's width begins inside an interval that may already
be forgotten: what is counted for certain reaches back to the beginning of the oldest interval kept.

* `ofSpan_eq` : the width of an interval and the number of those kept;
* `covered` : the seconds before a time that the kept intervals cover;
* `Covers` : no increment of the last seconds is missing from the count of the window;
* `covers_iff` : it is so exactly for the seconds that are covered.
-/

namespace Ingress.Metrics

def widthOf (span : Nat) : Nat := Max.max (span / 60) 1

theorem widthOf_pos (span : Nat) : 0 < widthOf span := by
  unfold widthOf
  omega

theorem ofSpan_eq {span : Nat} (h : 1 ≤ span) (hbound : span ≤ 86400) :
    Rolling.ofSpan span = { width := widthOf span, kept := span / widthOf span + 1, buckets := [] } := by
  have hlt : Max.max span 1 < Rolling.spanBound := by
    rw [Nat.max_eq_left h]
    exact lt_of_le_of_lt hbound (by decide)
  unfold Rolling.ofSpan
  dsimp only
  rw [if_pos hlt, Nat.max_eq_left h]
  rfl

theorem secondOf_sub (time : Int) (seconds : Nat) :
    secondOf (time - seconds * 1000) = secondOf time - seconds := by
  unfold secondOf
  rw [Int.fdiv_eq_ediv_of_nonneg _ (by decide), Int.fdiv_eq_ediv_of_nonneg _ (by decide)]
  omega

theorem secondOf_mono {s t : Int} (h : s ≤ t) : secondOf s ≤ secondOf t := by
  unfold secondOf
  rw [Int.fdiv_eq_ediv_of_nonneg _ (by decide), Int.fdiv_eq_ediv_of_nonneg _ (by decide)]
  omega

theorem Rolling.indexOf_mono {r : Rolling} (h : 0 < r.width) {s t : Int} (hle : s ≤ t) :
    r.indexOf s ≤ r.indexOf t := by
  unfold indexOf
  rw [Int.fdiv_eq_ediv_of_nonneg _ (by omega), Int.fdiv_eq_ediv_of_nonneg _ (by omega)]
  exact Int.ediv_le_ediv (by omega) hle

/-- The seconds before a time that the kept intervals of a span cover: the whole intervals of the
span, and what has passed of the one of the time. -/
def covered (span : Nat) (now : Int) : Int :=
  span - span % widthOf span + secondOf now % widthOf span

/-- A time is in a kept interval when no more than the covered seconds have passed since. -/
theorem le_covered_iff {r : Rolling} {span : Nat} (hwidth : r.width = widthOf span)
    (hkept : r.kept = span / widthOf span + 1) (now : Int) (seconds : Nat) :
    (seconds : Int) ≤ covered span now ↔
      r.indexOf (secondOf now) < r.indexOf (secondOf now - seconds) + r.kept := by
  have hpos : (0 : Int) < widthOf span := by exact_mod_cast widthOf_pos span
  have hspan := Int.mul_ediv_add_emod (span : Int) (widthOf span)
  have hnow := Int.mul_ediv_add_emod (secondOf now) (widthOf span)
  have hle := Int.le_ediv_iff_mul_le
    (a := secondOf now / widthOf span - span / widthOf span) (b := secondOf now - seconds) hpos
  rw [sub_mul, mul_comm (secondOf now / _), mul_comm ((span : Int) / _)] at hle
  unfold Rolling.indexOf covered
  rw [hkept, hwidth, Int.fdiv_eq_ediv_of_nonneg _ hpos.le, Int.fdiv_eq_ediv_of_nonneg _ hpos.le]
  omega

variable {config : Metrics.Config} {name : String}

/-- Whatever is recorded up to a time, in whatever order, no increment of the last `seconds` is missing
from the count of the window that ends then. -/
def Covers (config : Metrics.Config) (name : String) (now : Int) (seconds : Nat) : Prop :=
  ∀ calls : List Call, (∀ x ∈ calls, x.isReset = false ∧ x.time ≤ now) →
    amountIn name calls < 2 ^ 64 →
      amountSince name (now - seconds * 1000) calls ≤
        ((Collector.ofConfig config).exec calls).windowed name
          (now - config.health.rateWindow * 1000)

/-- A windowed count is the sum of the increments whose interval lasts, from the interval of its time
on. -/
theorem windowed_exec (hspan : 1 ≤ config.health.rateWindow)
    (hbound : config.health.rateWindow ≤ 86400) {calls : List Call}
    (hcalls : ∀ x ∈ calls, x.isReset = false) (since : Int) :
    ((Collector.ofConfig config).exec calls).windowed name since =
      (Rolling.ofSpan config.health.rateWindow).recorded (entries calls) name
        (fun i => decide ((Rolling.ofSpan config.health.rateWindow).indexOf (secondOf since) ≤ i) &&
          decide ((Rolling.ofSpan config.health.rateWindow).Lasts (entries calls) i)) % 2 ^ 64 := by
  have hempty : (Rolling.ofSpan config.health.rateWindow).clear =
      Rolling.ofSpan config.health.rateWindow := by rw [ofSpan_eq hspan hbound]; rfl
  have hkept : 0 < (Rolling.ofSpan config.health.rateWindow).kept := by
    rw [ofSpan_eq hspan hbound]
    exact Int.lt_add_one_of_le (Int.ediv_nonneg (by omega) (by omega))
  unfold Collector.windowed
  rw [Collector.rates_exec _ hcalls, ← Rolling.sumSince_recordAll _ hkept, hempty]
  rfl

theorem sum_filter_le {calls : List Call} {p q : Call → Bool} (f : Call → Nat)
    (h : ∀ x ∈ calls, p x = true → q x = true) :
    ((calls.filter p).map f).sum ≤ ((calls.filter q).map f).sum := by
  have hsub : calls.filter p = (calls.filter q).filter p := by
    rw [List.filter_filter]
    refine List.filter_congr fun x hx => ?_
    cases hp : p x with
    | false => rfl
    | true => rw [h x hx hp]; rfl
  rw [hsub]
  exact (List.filter_sublist.map f).sum_le_sum fun _ _ => Nat.zero_le _

section Covered

variable (hspan : 1 ≤ config.health.rateWindow) (hbound : config.health.rateWindow ≤ 86400)
  (hname : Name.rateTracked.contains name = true)

include hspan hbound hname

/-- What is recorded in the covered seconds is counted. -/
theorem covers_of_covered {now : Int} {seconds : Nat} (hseconds : seconds ≤ config.health.rateWindow)
    (hcovered : (seconds : Int) ≤ covered config.health.rateWindow now) :
    Covers config name now seconds := by
  intro calls hcalls htotal
  have hpos : 0 < (Rolling.ofSpan config.health.rateWindow).width := by
    rw [ofSpan_eq hspan hbound]
    exact widthOf_pos _
  rw [le_covered_iff (r := Rolling.ofSpan config.health.rateWindow)
    (by rw [ofSpan_eq hspan hbound]) (by rw [ofSpan_eq hspan hbound])] at hcovered
  rw [windowed_exec hspan hbound fun x hx => (hcalls x hx).1, recorded_entries hname]
  -- a part of the total is no more than the total, and does not wrap
  rw [Nat.mod_eq_of_lt (lt_of_le_of_lt
    ((List.filter_sublist.map _).sum_le_sum fun _ _ => Nat.zero_le _) htotal)]
  refine sum_filter_le _ fun x hx hrecent => ?_
  have hafter : secondOf now - seconds ≤ secondOf x.time := by
    rw [← secondOf_sub]
    exact secondOf_mono (of_decide_eq_true hrecent)
  have hindex := Rolling.indexOf_mono hpos hafter
  rw [Bool.and_eq_true, decide_eq_true_eq, decide_eq_true_eq]
  constructor
  · -- the window begins no later than the seconds in question
    refine Rolling.indexOf_mono hpos ?_
    rw [secondOf_sub]
    omega
  · -- no entry is later than the end of the window, which the interval of `x` is close to
    intro e he
    obtain ⟨y, hy, hey⟩ := time_mem_entries he
    have hnow := Rolling.indexOf_mono hpos (secondOf_mono (hcalls y hy).2)
    rw [hey]
    omega

/-- An increment before the covered seconds is missed once anything has been recorded since. -/
theorem covered_of_covers {now : Int} {seconds : Nat} (h : Covers config name now seconds) :
    (seconds : Int) ≤ covered config.health.rateWindow now := by
  by_contra huncovered
  rw [le_covered_iff (r := Rolling.ofSpan config.health.rateWindow)
    (by rw [ofSpan_eq hspan hbound]) (by rw [ofSpan_eq hspan hbound])] at huncovered
  -- an increment by nothing is enough: its interval pushes that of the earlier one out
  have hpast : ∀ x ∈ [Call.mk now (.increment name 0 []),
      ⟨now - seconds * 1000, .increment name 1 []⟩], x.isReset = false ∧ x.time ≤ now := by
    simp [Call.isReset]
  have hentry : Entry.mk name 0 (secondOf now) ∈ entries [Call.mk now (.increment name 0 []),
      ⟨now - seconds * 1000, .increment name 1 []⟩] :=
    List.mem_filterMap.2 ⟨_, List.mem_cons_self, if_pos hname⟩
  have hmissed := h _ hpast (by simp [amountIn, Call.amount])
  rw [windowed_exec hspan hbound fun x hx => (hpast x hx).1, recorded_entries hname] at hmissed
  generalize entries [Call.mk now _, _] = es at hmissed hentry
  have hlost : (Rolling.ofSpan config.health.rateWindow).Lasts es
      ((Rolling.ofSpan config.health.rateWindow).indexOf (secondOf (now - seconds * 1000))) = False :=
    eq_false fun hall => huncovered (secondOf_sub now seconds ▸ hall _ hentry)
  have hsince : amountSince name (now - seconds * 1000) [Call.mk now (.increment name 0 []),
      ⟨now - seconds * 1000, .increment name 1 []⟩] = 1 := by
    simp [amountSince, Call.amount]
  rw [hsince, List.filter_cons, List.filter_cons_of_neg (by simp [hlost])] at hmissed
  split at hmissed <;> simp [Call.amount] at hmissed

end Covered

/-- **No increment of the last seconds is ever missed exactly when the kept intervals cover them.** -/
theorem covers_iff (hspan : 1 ≤ config.health.rateWindow) (hbound : config.health.rateWindow ≤ 86400)
    (hname : Name.rateTracked.contains name = true) (now : Int) {seconds : Nat}
    (hseconds : seconds ≤ config.health.rateWindow) :
    Covers config name now seconds ↔ (seconds : Int) ≤ covered config.health.rateWindow now :=
  ⟨covered_of_covers hspan hbound hname, covers_of_covered hspan hbound hname hseconds⟩

/-- A window of 121 seconds has intervals of two seconds, and 61 of them are kept. -/
def oddWindow : Metrics.Config :=
  { Metrics.Config.standard with
    health := { Health.Thresholds.standard with rateWindow := 121 } }

theorem covers_oddWindow : ¬ Covers oddWindow Name.received 1700000000000 121 ∧
    Covers oddWindow Name.received 1700000001000 121 :=
  ⟨mt (covers_iff (by decide) (by decide) (by decide +kernel) _ le_rfl).1 (by decide),
    (covers_iff (by decide) (by decide) (by decide +kernel) _ le_rfl).2 (by decide)⟩

/-- Two messages of the last 121 seconds, of which one is counted. -/
theorem windowed_oddWindow :
    amountSince Name.received (1700000000000 - 121 * 1000)
        [⟨1699999879000, .increment Name.received 1 []⟩,
          ⟨1700000000000, .increment Name.received 1 []⟩] = 2 ∧
      ((Collector.ofConfig oddWindow).exec
        [⟨1699999879000, .increment Name.received 1 []⟩,
          ⟨1700000000000, .increment Name.received 1 []⟩]).windowed Name.received
            (1700000000000 - 121 * 1000) = 1 :=
  ⟨by decide +kernel, by decide +kernel⟩

end Ingress.Metrics
