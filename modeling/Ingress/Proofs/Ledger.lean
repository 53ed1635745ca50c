import Mathlib
import Ingress.Aggregator.Handler

/-!
# What is written of the ways of batches

A batch leaves its window and is given to handlers; the traffic of a ledger is what its journal holds of
that. Most of what a gateway writes neither moves the clock nor a batch.

* `Ledger.traffic`, `departures`, `invocations` : what the journal holds of the ways of batches;
* `departures_eq`, `dispatched_eq`, `invocations_eq` : each is read off the traffic;
* `Ledger.Moves l l' ms` : from `l` to `l'` no time passes, and batches move as in `ms`;
* `Moves.log`, `Moves.increment`, `Moves.sink`, ... : writes that move none;
* `Ledger.Frame l l'` : from `l` to `l'` the clock stands and no batch leaves its window.
-/

namespace Ingress

/-- Whether an occurrence moves a batch: it leaves its window, or a handler is given it. -/
def Occurrence.moves : Occurrence → Bool
  | .dispatched _ => true
  | .invoked _ _ => true
  | _ => false

namespace Ledger

/-- What has moved batches, oldest first. -/
def traffic (l : Ledger) : List Happening := l.journal.filter fun h => h.what.moves

/-- The batches of a journal that left their window, with the times. -/
def departuresIn (journal : List Happening) : List (Int × List Event) :=
  journal.filterMap fun h =>
    match h.what with
    | .dispatched batch => some (h.time, batch)
    | _ => none

/-- The batches that left their window, with the times. -/
def departures (l : Ledger) : List (Int × List Event) := departuresIn l.journal

/-- The batches of a journal that the handler of a place was given, with the times. -/
def invocationsIn (place : Place) (journal : List Happening) : List (Int × List Event) :=
  journal.filterMap fun h =>
    match h.what with
    | .invoked p batch => if p = place then some (h.time, batch) else none
    | _ => none

/-- The batches that the handler of a place was given, with the times. -/
def invocations (l : Ledger) (place : Place) : List (Int × List Event) :=
  invocationsIn place l.journal

variable {l l' l'' : Ledger} {hs : List Happening}

/-- What a reader takes from moved batches alone, it takes from the traffic. -/
theorem filterMap_traffic {α : Type} {f : Happening → Option α}
    (hf : ∀ h : Happening, h.what.moves = false → f h = none) (l : Ledger) :
    l.journal.filterMap f = l.traffic.filterMap f := by
  unfold traffic
  rw [List.filterMap_filter]
  refine List.filterMap_congr fun x _ => ?_
  split
  · rfl
  · next hstill => exact hf x (by simpa using hstill)

theorem departures_eq (l : Ledger) : l.departures = departuresIn l.traffic :=
  filterMap_traffic (fun ⟨_, what⟩ hstill => by cases what <;> first | rfl | cases hstill) l

theorem dispatched_eq (l : Ledger) : l.dispatched = dispatchedIn l.traffic :=
  filterMap_traffic (fun ⟨_, what⟩ hstill => by cases what <;> first | rfl | cases hstill) l

theorem dispatched_eq_map (l : Ledger) : l.dispatched = l.departures.map Prod.snd := by
  unfold dispatched departures dispatchedIn departuresIn
  rw [List.map_filterMap]
  refine List.filterMap_congr fun h _ => ?_
  cases h.what <;> rfl

theorem invocations_eq (l : Ledger) (place : Place) :
    l.invocations place = invocationsIn place l.traffic :=
  filterMap_traffic (fun ⟨_, what⟩ hstill => by cases what <;> first | rfl | cases hstill) l

theorem dispatched_append (h : l'.traffic = l.traffic ++ hs) :
    l'.dispatched = l.dispatched ++ dispatchedIn hs := by
  rw [dispatched_eq, dispatched_eq, h]
  exact List.filterMap_append

theorem departures_append (h : l'.traffic = l.traffic ++ hs) :
    l'.departures = l.departures ++ departuresIn hs := by
  rw [departures_eq, departures_eq, h]
  exact List.filterMap_append

theorem invocations_append (h : l'.traffic = l.traffic ++ hs) (place : Place) :
    l'.invocations place = l.invocations place ++ invocationsIn place hs := by
  rw [invocations_eq, invocations_eq, h]
  exact List.filterMap_append

/-! ## Writers -/

/-- From `l` to `l'` no time passes, and batches move as in `ms`. -/
structure Moves (l l' : Ledger) (ms : List Occurrence) : Prop where
  clock : l'.clock = l.clock
  traffic : l'.traffic = l.traffic ++ ms.map (⟨l.clock, ·⟩)

namespace Moves

variable {ms ms' : List Occurrence}

theorem refl (l : Ledger) : Moves l l [] := ⟨rfl, (List.append_nil _).symm⟩

theorem trans (h : Moves l l' ms) (h' : Moves l' l'' ms') : Moves l l'' (ms ++ ms') := by
  refine ⟨h'.clock.trans h.clock, ?_⟩
  rw [h'.traffic, h.traffic, h.clock, List.append_assoc, List.map_append]

/-- One more write that moves no batch. -/
theorem still (h : Moves l l' ms) (h' : Moves l' l'' []) : Moves l l'' ms := by
  rw [← List.append_nil ms]
  exact h.trans h'

theorem note_moving (l : Ledger) {what : Occurrence} (hmoves : what.moves = true) :
    Moves l (l.note what) [what] := by
  refine ⟨rfl, ?_⟩
  unfold Ledger.traffic Ledger.note
  rw [List.filter_append]
  congr 1
  exact List.filter_cons_of_pos hmoves

theorem note (l : Ledger) {what : Occurrence} (hstill : what.moves = false) :
    Moves l (l.note what) [] := by
  refine ⟨rfl, ?_⟩
  unfold Ledger.traffic Ledger.note
  rw [List.filter_append]
  congr 1
  exact List.filter_cons_of_neg (by simp [hstill])

theorem log (l : Ledger) (entry : Log.Entry) : Moves l (l.log entry) [] := note l rfl

theorem increment (l : Ledger) (name : String) (n : Nat) (labels : Metrics.Labels) :
    Moves l (l.increment name n labels) [] := ⟨rfl, (List.append_nil _).symm⟩

theorem observe (l : Ledger) (name : String) (value : Double) (labels : Metrics.Labels) :
    Moves l (l.observe name value labels) [] := ⟨rfl, (List.append_nil _).symm⟩

theorem foldl {α : Type} {f : Ledger → α → Ledger} (hf : ∀ l x, Moves l (f l x) []) (xs : List α) :
    ∀ l : Ledger, Moves l (xs.foldl f l) [] := by
  induction xs with
  | nil => exact refl
  | cons x xs ih => exact fun l => (hf l x).still (ih (f l x))

/-- What a handler does with a batch moves none. -/
theorem sink (s : Aggregator.Sink) (handler : String) (batch : List Event) (l : Ledger) :
    Moves l (s.take handler batch l) [] := by
  cases s with
  | drop => exact refl l
  | keep => exact note l rfl
  | log => exact log l _
  | count => exact foldl (fun m _ => increment m _ _ _) _ l

end Moves

/-! ## Frames -/

/-- From `l` to `l'` the clock stands and no batch leaves its window. -/
structure Frame (l l' : Ledger) : Prop where
  clock : l'.clock = l.clock
  dispatched : l'.dispatched = l.dispatched

/-- The batches that one occurrence lets leave their window. -/
def batchesOf : Occurrence → List (List Event)
  | .dispatched batch => [batch]
  | _ => []

theorem Moves.frame {ms : List Occurrence} (h : Moves l l' ms)
    (hms : ∀ what ∈ ms, batchesOf what = []) : Frame l l' := by
  refine ⟨h.clock, ?_⟩
  rw [dispatched_append h.traffic]
  refine (congrArg (l.dispatched ++ ·) (List.filterMap_eq_nil_iff.2 fun x hx => ?_)).trans
    (List.append_nil _)
  obtain ⟨what, hwhat, rfl⟩ := List.mem_map.1 hx
  have hnone := hms what hwhat
  cases what <;> first | rfl | cases hnone

theorem Moves.departures {ms : List Occurrence} (h : Moves l l' ms)
    (hms : ∀ what ∈ ms, batchesOf what = []) : l'.departures = l.departures := by
  have hnone : departuresIn (ms.map (⟨l.clock, ·⟩)) = [] := by
    refine List.filterMap_eq_nil_iff.2 fun x hx => ?_
    obtain ⟨what, hwhat, rfl⟩ := List.mem_map.1 hx
    have hstill := hms what hwhat
    cases what <;> first | rfl | cases hstill
  rw [departures_append h.traffic, hnone, List.append_nil]

theorem frame_log (l : Ledger) (entry : Log.Entry) : Frame l (l.log entry) :=
  (Moves.log l entry).frame fun _ hwhat => absurd hwhat List.not_mem_nil

end Ledger

end Ingress
