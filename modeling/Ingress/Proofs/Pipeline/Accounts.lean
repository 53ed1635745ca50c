import Ingress.Pipeline.Outcome
import Ingress.Proofs.Metrics.Counter
import Ingress.Proofs.Metrics.Run
import Ingress.Proofs.Metrics.Shares
import Mathlib

/-!
# The accounts of messages

* `accounts` : the counters by which messages are accounted for, that of all messages first;
* `Outcome.tallies` : the counters of which an outcome raises one, if it raises any;
* `Ledger.attendance` : the figures of sessions;
* `Tally name l l'` : from `l` to `l'` the journal, the counters of delivered events and the figures of
  sessions stay, and of the accounts that of `name` is raised, also by time;
* `Tally.count`, `Tally.security`, ... : what is written.
-/

namespace Ingress

open Metrics

/-- The counters by which messages are accounted for. -/
def accounts : List String :=
  [Name.received, Name.processed, Name.invalidMessages, Name.invalidEvents, Name.rateLimited,
    Name.processingErrors, Name.dropped]

/-- The counters of which a rejection raises one. -/
def Rejection.tallies : Rejection → List String
  | .invalidFormat => [Name.invalidMessages]
  | .eventTooLarge => [Name.invalidEvents]
  | .schemaViolation => [Name.invalidEvents, Name.processingErrors]
  | .rateLimited => [Name.rateLimited]
  | .invalidClient => [Name.rateLimited]
  | .queueFull => [Name.dropped]

/-- The counters of which an outcome raises one; none for a message that was aborted. -/
def Outcome.tallies : Outcome → List (Option String)
  | .accepted => [some Name.processed]
  | .rejected why _ => why.tallies.map some
  | .aborted => [none]

theorem Rejection.tallies_subset (why : Rejection) : ∀ n ∈ why.tallies, n ∈ accounts := by
  cases why <;> decide

theorem Outcome.received_not_mem_tallies (o : Outcome) : some Name.received ∉ o.tallies := by
  cases o with
  | accepted => decide
  | rejected why errors => cases why <;> exact of_decide_eq_true rfl
  | aborted => decide

namespace Ledger

def counter (l : Ledger) (name : String) : Nat := l.metrics.counter name []

theorem counter_count (l : Ledger) (name n : String) : (l.count name).counter n =
    if n = name then (l.counter n + 1) % counterBound else l.counter n := by
  have hkey : Key.of n [] = Key.of name [] ↔ n = name := by simp [Key.of]
  show ((l.metrics.counters.alter (.of name []) fun old => (old.getD 0 + 1) % counterBound).get?
    (.of n [])).getD 0 = _
  rw [Table.get?_alter]
  by_cases h : n = name
  · rw [if_pos h, if_pos (hkey.2 h), h, Option.getD_some]
    rfl
  · rw [if_neg h, if_neg (mt hkey.1 h)]
    rfl

theorem counter_increment_of_ne (l : Ledger) {name n : String} (h : n ≠ name) (k : Nat)
    (labels : Labels) : (l.increment name k labels).counter n = l.counter n :=
  l.metrics.counter_increment_of_name_ne name labels k l.clock h []

/-- The figures of sessions: the gauge of those that are open, and the counter of all. -/
def attendance (l : Ledger) : Double × Nat :=
  (l.metrics.gauge Name.connections, l.counter Name.connectionsOpened)

theorem attendance_increment (l : Ledger) {name : String} (h : name ≠ Name.connectionsOpened) (k : Nat)
    (labels : Labels) : (l.increment name k labels).attendance = l.attendance :=
  congrArg (l.metrics.gauge Name.connections, ·) (counter_increment_of_ne l h.symm k labels)

/-- From `l` to `l'` the journal, the counters of delivered events and the figures of sessions stay, and of
the accounts that of a name is raised by one, if there is a name, and no other is raised by time. -/
structure Tally (name : Option String) (l l' : Ledger) : Prop where
  clock : l'.clock = l.clock
  journal : l'.journal = l.journal
  batched : l'.batched = l.batched
  attendance : l'.attendance = l.attendance
  rates : l'.rates = l.rates.recordAt (tracked name.toList) (secondOf l.clock)
  counter : ∀ n ∈ accounts, l'.counter n =
    if name = some n then (l.counter n + 1) % counterBound else l.counter n

namespace Tally

variable {l l' l'' : Ledger} {name : Option String}

theorem refl (l : Ledger) : Tally none l l := ⟨rfl, rfl, rfl, rfl, rfl, fun _ _ => rfl⟩

/-- What raises no account may follow. -/
theorem trans (h : Tally name l l') (h' : Tally none l' l'') : Tally name l l'' :=
  ⟨h'.clock.trans h.clock, h'.journal.trans h.journal, h'.batched.trans h.batched,
    h'.attendance.trans h.attendance, h'.rates.trans h.rates,
    fun n hn => (h'.counter n hn).trans (h.counter n hn)⟩

theorem count (l : Ledger) {name : String} (h : name ∈ accounts) :
    Tally (some name) l (l.count name) := by
  have hbatched : name ≠ Name.batchedEvents := by
    rintro rfl
    exact absurd h (by decide)
  have hopened : name ≠ Name.connectionsOpened := by
    rintro rfl
    exact absurd h (by decide)
  refine ⟨rfl, rfl, l.batched_increment hbatched 1 [], l.attendance_increment hopened 1 [],
    l.rates_increment name [], fun n _ => ?_⟩
  rw [counter_count]
  simp only [Option.some.injEq, eq_comm]

theorem observe (l : Ledger) (name : String) (value : Double) (labels : Labels) :
    Tally none l (l.observe name value labels) := ⟨rfl, rfl, rfl, rfl, rfl, fun _ _ => rfl⟩

/-- Security events have counters of their own. -/
theorem security (l : Ledger) (type client : String) (details : Json.Value)
    (h : Name.securityEvents type ∉ Name.batchedEvents :: Name.connectionsOpened :: accounts) :
    Tally none l (l.security type client details) := by
  obtain ⟨hbatched, hrest⟩ := not_or.1 (mt List.mem_cons.2 h)
  obtain ⟨hopened, haccounts⟩ := not_or.1 (mt List.mem_cons.2 hrest)
  refine ⟨rfl, rfl, l.batched_increment hbatched 1 [], l.attendance_increment hopened 1 [],
    l.rates_increment_of_untracked (securityEvents_not_tracked type) 1 [], fun n hn => ?_⟩
  have hne : n ≠ Name.securityEvents type := by
    rintro rfl
    exact haccounts hn
  exact counter_increment_of_ne l hne 1 []

end Tally

end Ledger

end Ingress
