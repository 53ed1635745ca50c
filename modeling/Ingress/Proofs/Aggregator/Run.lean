import Ingress.Aggregator.Basic
import Mathlib

/-!
# Runs of the aggregator

* `Action` : what can happen to an aggregator: an event is offered, it is started or stopped, time
  passes, or what is due is done;
* `Offer` : an event that was offered, when, and whether it was taken;
* `Aggregator.act`, `Aggregator.exec` : an action, and any number of them one after the other, with
  the offers they made;
* `accepted` : the events that were taken, in the order of their offers;
* `KeptByTime` : what neither time nor what falls due undoes, not even in a stop that waits;
  `KeptByTime.act` : then only offers and starts could.

A stop is one action that waits for deliveries (`Action.stop`), or only its beginning
(`Action.halt`), after which the run goes on while the stop waits. Time passes in leaps of any
length, and what is due is done by `Action.advance` and `Action.conclude`, so the runs cover the
passing of time millisecond by millisecond, stalls, and every moment in between.
-/

namespace Ingress

namespace Aggregator

inductive Action where
  | add (e : Event)
  | start
  | stop
  | halt
  | pass (ms : Nat)
  | advance
  | conclude

/-- An event that was offered to the queue, when, and whether it was taken. -/
structure Offer where
  event : Event
  time : Int
  taken : Bool

/-- The events that were taken, in the order of their offers. -/
def accepted (offers : List Offer) : List Event := (offers.filter Offer.taken).map Offer.event

@[simp] theorem accepted_nil : accepted [] = [] := rfl

theorem accepted_append (xs ys : List Offer) :
    accepted (xs ++ ys) = accepted xs ++ accepted ys := by
  simp [accepted]

end Aggregator

open Aggregator

/-- An action, with the offer it makes if it makes one. -/
def Aggregator.act (a : Aggregator) : Action → List Offer × Aggregator
  | .add e => ([⟨e, a.clock, (a.add e).1⟩], (a.add e).2)
  | .start => ([], a.start)
  | .stop => ([], a.stop)
  | .halt => ([], a.flush)
  | .pass ms => ([], a.pass ms)
  | .advance => ([], a.advance)
  | .conclude => ([], a.conclude)

/-- Actions one after the other, with the offers they made in order. -/
def Aggregator.exec (a : Aggregator) : List Action → List Offer × Aggregator
  | [] => ([], a)
  | x :: rest =>
    let (offers, b) := a.act x
    let (more, c) := b.exec rest
    (offers ++ more, c)

namespace Aggregator

theorem exec_cons (a : Aggregator) (x : Action) (rest : List Action) :
    a.exec (x :: rest) = ((a.act x).1 ++ ((a.act x).2.exec rest).1, ((a.act x).2.exec rest).2) := rfl

/-- A run goes on where the run before it ended. -/
theorem exec_append (a : Aggregator) (xs ys : List Action) :
    a.exec (xs ++ ys) = ((a.exec xs).1 ++ ((a.exec xs).2.exec ys).1, ((a.exec xs).2.exec ys).2) := by
  induction xs generalizing a with
  | nil => rfl
  | cons x rest ih =>
    rw [List.cons_append, exec_cons, ih, exec_cons, List.append_assoc]

/-- What every action keeps, every run keeps. -/
theorem exec_keeps {P : Aggregator → Prop} (hact : ∀ a x, P a → P (a.act x).2) (a : Aggregator)
    (xs : List Action) (h : P a) : P (a.exec xs).2 := by
  induction xs generalizing a with
  | nil => exact h
  | cons x rest ih =>
    rw [exec_cons]
    exact ih _ (hact a x h)

/-- Kept by the passing of time, by what falls due, and by the beginning of a stop. -/
structure KeptByTime (P : Aggregator → Prop) : Prop where
  pass : ∀ a ms, P a → P (a.pass ms)
  advance : ∀ a, P a → P a.advance
  conclude : ∀ a, P a → P a.conclude
  halt : ∀ a, P a → P a.flush

namespace KeptByTime

variable {P : Aggregator → Prop}

theorem settle (h : KeptByTime P) (a : Aggregator) (ha : P a) : P a.settle :=
  h.conclude _ (h.advance a ha)

theorem awaitDrain (h : KeptByTime P) (n : Nat) :
    ∀ a : Aggregator, P a → P (Aggregator.awaitDrain n a) := by
  induction n with
  | zero => exact fun _ ha => ha
  | succ n ih =>
    intro a ha
    unfold Aggregator.awaitDrain
    split
    · exact ih _ (h.settle _ (h.pass a 1 ha))
    · exact ha

/-- A whole stop keeps it too. -/
theorem stop (h : KeptByTime P) (a : Aggregator) (ha : P a) : P a.stop :=
  h.awaitDrain _ _ (h.settle _ (h.halt _ (h.settle a ha)))

theorem and {Q : Aggregator → Prop} (h : KeptByTime P) (h' : KeptByTime Q) :
    KeptByTime fun a => P a ∧ Q a where
  pass := fun a ms ha => ⟨h.pass a ms ha.1, h'.pass a ms ha.2⟩
  advance := fun a ha => ⟨h.advance a ha.1, h'.advance a ha.2⟩
  conclude := fun a ha => ⟨h.conclude a ha.1, h'.conclude a ha.2⟩
  halt := fun a ha => ⟨h.halt a ha.1, h'.halt a ha.2⟩

/-- So does every action, if offers and starts do. -/
theorem act (h : KeptByTime P) (hadd : ∀ a e, P a → P (a.add e).2) (hstart : ∀ a, P a → P a.start)
    (a : Aggregator) (x : Action) (ha : P a) : P (a.act x).2 := by
  cases x with
  | add e => exact hadd a e ha
  | start => exact hstart a ha
  | stop => exact h.stop a ha
  | halt => exact h.halt a ha
  | pass ms => exact h.pass a ms ha
  | advance => exact h.advance a ha
  | conclude => exact h.conclude a ha

end KeptByTime

/-! ## Longer spans of time -/

/-- What is due is done once. -/
def settling : List Action := [.advance, .conclude]

/-- So many milliseconds pass one by one, and each time what is due is done. -/
def ticking : Nat → List Action
  | 0 => []
  | n + 1 => .pass 1 :: settling ++ ticking n

theorem exec_settling (a : Aggregator) : a.exec settling = ([], a.settle) := rfl

theorem exec_ticking (n : Nat) (a : Aggregator) : a.exec (ticking n) = ([], ticks n a) := by
  induction n generalizing a with
  | zero => rfl
  | succ n ih =>
    have h : a.exec (.pass 1 :: settling) = ([], a.tick) := rfl
    rw [ticking, exec_append, h, ih]
    rfl

/-- Sleeping is a run. -/
theorem exec_sleep (a : Aggregator) (ms : Nat) :
    a.exec (settling ++ ticking ms) = ([], a.sleep ms) := by
  rw [exec_append, exec_settling, exec_ticking]
  rfl

/-- A stall is a run. -/
theorem exec_leap (a : Aggregator) (ms : Nat) :
    a.exec (settling ++ .pass ms :: settling) = ([], a.leap ms) := rfl

end Aggregator

end Ingress
