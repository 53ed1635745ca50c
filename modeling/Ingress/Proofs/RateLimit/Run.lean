import Mathlib
import Ingress.Proofs.RateLimit.Naive
import Ingress.RateLimit.Limiter

/-!
# Runs of the rate limiter

* `Request`, `Call` : what a limiter is asked, and when;
* `Exchange` : a call with its answer;
* `Limiter.answer`, `Limiter.exec` : a call, and any number of them one after the other, with what
  was answered;
* `admissions`, `verdicts` : what the answers say of one client;
* `checkTimes` : the times of a client's own checks;
* `Timely` : the clock does not go back.
-/

namespace Ingress.RateLimit

inductive Request where
  | check (id : String)
  | usage (id : String)
  | top (limit : Nat)
  | cleanup
deriving DecidableEq

def Request.isCheck : Request → Bool
  | .check _ => true
  | _ => false

structure Call where
  time : Int
  request : Request

inductive Answer where
  | admission (a : Admission)
  | usage (u : Option Usage)
  | top (reports : List ClientReport)
  | reaped (count : Nat)

/-- A call with its answer. -/
structure Exchange where
  call : Call
  answer : Answer

namespace Limiter

def answer (l : Limiter) (c : Call) : Answer × Limiter :=
  match c.request with
  | .check id => (.admission (l.check id c.time).1, (l.check id c.time).2)
  | .usage id => (.usage (l.usage id c.time).1, (l.usage id c.time).2)
  | .top limit => (.top (l.top limit c.time).1, (l.top limit c.time).2)
  | .cleanup => (.reaped (l.cleanup c.time).1, (l.cleanup c.time).2)

def exec (l : Limiter) : List Call → List Exchange × Limiter
  | [] => ([], l)
  | c :: rest =>
    (⟨c, (l.answer c).1⟩ :: ((l.answer c).2.exec rest).1, ((l.answer c).2.exec rest).2)

theorem exec_cons (l : Limiter) (c : Call) (rest : List Call) :
    l.exec (c :: rest) =
      (⟨c, (l.answer c).1⟩ :: ((l.answer c).2.exec rest).1, ((l.answer c).2.exec rest).2) := rfl

/-- A run goes on where the run before it ended. -/
theorem exec_append (l : Limiter) (xs ys : List Call) :
    l.exec (xs ++ ys) = ((l.exec xs).1 ++ ((l.exec xs).2.exec ys).1, ((l.exec xs).2.exec ys).2) := by
  induction xs generalizing l with
  | nil => rfl
  | cons c rest ih => rw [List.cons_append, exec_cons, ih, exec_cons, List.cons_append]

end Limiter

/-- The clock does not go back. -/
def Timely (calls : List Call) : Prop := (calls.map Call.time).Pairwise (· ≤ ·)

instance (calls : List Call) : Decidable (Timely calls) :=
  inferInstanceAs (Decidable (List.Pairwise _ _))

/-- A run lies between a time before all calls and one after them. -/
theorem Timely.between {calls : List Call} (h : Timely calls) {fin : Int}
    (hfin : ∀ c ∈ calls, c.time ≤ fin) :
    ∃ start, (start :: (calls.map Call.time ++ [fin])).Pairwise (· ≤ ·) := by
  obtain ⟨start, hstart⟩ := (calls.map Call.time ++ [fin]).finite_toSet.bddBelow
  refine ⟨start, List.pairwise_cons.2 ⟨fun t ht => hstart ht, ?_⟩⟩
  refine List.pairwise_append.2 ⟨h, List.pairwise_singleton _ _, fun t ht u hu => ?_⟩
  obtain ⟨c, hc, rfl⟩ := List.mem_map.1 ht
  rw [List.mem_singleton.1 hu]
  exact hfin c hc

theorem exists_end (calls : List Call) : ∃ fin, ∀ c ∈ calls, c.time ≤ fin := by
  obtain ⟨fin, hfin⟩ := (calls.map Call.time).finite_toSet.bddAbove
  exact ⟨fin, fun c hc => hfin (List.mem_map_of_mem hc)⟩

/-! ## What a run says of one client -/

def Call.checkTime? (id : String) (c : Call) : Option Int :=
  if c.request = .check id then some c.time else none

theorem Call.checkTime?_cases (c : Call) (id : String) :
    c.checkTime? id = none ∨ c.checkTime? id = some c.time := by
  unfold Call.checkTime?
  split
  · exact .inr rfl
  · exact .inl rfl

def checkTimes (id : String) (calls : List Call) : List Int := calls.filterMap (Call.checkTime? id)

def Exchange.admission? (id : String) (x : Exchange) : Option Admission :=
  match x.answer with
  | .admission a => if x.call.request = .check id then some a else none
  | _ => none

/-- The time of an admitted check of a client. -/
def Exchange.admittedAt? (id : String) (x : Exchange) : Option Int :=
  if x.admission? id = some .admitted then some x.call.time else none

/-- The times at which a client was admitted. -/
def admissions (id : String) (exchanges : List Exchange) : List Int :=
  exchanges.filterMap (Exchange.admittedAt? id)

/-- The kinds of the answers to the checks of a client. -/
def verdicts (id : String) (exchanges : List Exchange) : List Verdict :=
  exchanges.filterMap fun x => (x.admission? id).bind Admission.verdict?

theorem admissions_cons (id : String) (x : Exchange) (rest : List Exchange) :
    admissions id (x :: rest) = (x.admittedAt? id).toList ++ admissions id rest := by
  unfold admissions
  cases h : x.admittedAt? id with
  | none => rw [List.filterMap_cons_none h]; rfl
  | some t => rw [List.filterMap_cons_some h]; rfl

theorem admissions_append (id : String) (xs ys : List Exchange) :
    admissions id (xs ++ ys) = admissions id xs ++ admissions id ys := List.filterMap_append

theorem verdicts_cons (id : String) (x : Exchange) (rest : List Exchange) :
    verdicts id (x :: rest) =
      ((x.admission? id).bind Admission.verdict?).toList ++ verdicts id rest := by
  unfold verdicts
  rw [List.filterMap_cons]
  cases (x.admission? id).bind Admission.verdict? with
  | none => rfl
  | some v => rfl

theorem checkTimes_cons (id : String) (c : Call) (rest : List Call) :
    checkTimes id (c :: rest) = (c.checkTime? id).toList ++ checkTimes id rest := by
  unfold checkTimes
  cases h : c.checkTime? id with
  | none => rw [List.filterMap_cons_none h]; rfl
  | some t => rw [List.filterMap_cons_some h]; rfl

theorem checkTimes_sublist (id : String) (calls : List Call) :
    (checkTimes id calls).Sublist (calls.map Call.time) := by
  induction calls with
  | nil => exact List.Sublist.refl _
  | cons c rest ih =>
    rw [checkTimes_cons, List.map_cons]
    rcases c.checkTime?_cases id with hc | hc
    · rw [hc]
      exact ih.cons _
    · rw [hc]
      exact ih.cons_cons _

theorem Timely.checkTimes {calls : List Call} (h : Timely calls) (id : String) :
    (checkTimes id calls).Pairwise (· ≤ ·) := List.Pairwise.sublist (checkTimes_sublist id calls) h

/-! ## A sample run -/

/-- One admission in 10 milliseconds, two in 100. -/
def tight : RateLimit.Config :=
  { burstLimit := 1, burstWindow := 10, sustainedLimit := 2, sustainedWindow := 100,
    cleanupInterval := 1 }

/-- Checks of a client with reads between them, until it is idle for long enough to be reaped. -/
def sampleCalls : List Call :=
  [⟨0, .check "a"⟩, ⟨0, .check "a"⟩, ⟨5, .usage "a"⟩, ⟨10, .check "a"⟩, ⟨15, .top 1⟩,
    ⟨20, .check "a"⟩, ⟨119, .cleanup⟩, ⟨120, .cleanup⟩]

end Ingress.RateLimit
