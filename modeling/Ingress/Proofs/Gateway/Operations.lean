import Ingress.Proofs.Gateway.Course
import Mathlib

/-!
# The operations of a gateway as runs

What a gateway does in one piece, sessions do in turns: an operation is a run in which nothing else happens.

* `exec_figures` : a session writes its figures;
* `exec_connect`, `exec_receive` : a session opens, and a frame comes for it;
* `Hall.shutDownSteps`, `gateway_exec_shutDown`, `replies_exec_shutDown` : a stop that waits for the sessions.
-/

namespace Ingress

open Gateway

namespace Hall

variable {c : Gateway.Config} {h : Hall} {k : Nat}

/-! ## Sessions -/

theorem exec_append (h : Hall) (xs ys : List Step) : h.exec (xs ++ ys) = (h.exec xs).exec ys :=
  List.foldl_append

/-- A session writes all its figures. -/
theorem exec_figures (figures : List Figure) : ∀ {h : Hall}, h.due k = figures →
    (h.exec (List.replicate figures.length (.turn k))).gateway = h.gateway.tellAll figures ∧
      (h.exec (List.replicate figures.length (.turn k))).lines = h.lines ∧
      (h.exec (List.replicate figures.length (.turn k))).due = Function.update h.due k [] := by
  induction figures with
  | nil =>
    intro h hdue
    have hsame := Function.update_eq_self k h.due
    rw [hdue] at hsame
    exact ⟨rfl, rfl, hsame.symm⟩
  | cons figure rest ih =>
    intro h hdue
    have htold : h.step (.turn k) = h.tell k figure rest := step_turn_due hdue
    obtain ⟨hgateway, hlines, hrest⟩ := ih (h := h.tell k figure rest) (Function.update_self ..)
    rw [List.length_cons, List.replicate_succ]
    show ((h.step (.turn k)).exec _).gateway = _ ∧ ((h.step (.turn k)).exec _).lines = _ ∧
      ((h.step (.turn k)).exec _).due = _
    rw [htold]
    exact ⟨hgateway, hlines, hrest.trans (Function.update_idem ..)⟩

/-- A session opens, and writes its figures. -/
theorem exec_connect (ha : h.IsAttended c) (hlistening : h.gateway.listening = true) (id client : String) :
    (h.exec (.connect id client :: List.replicate 3 (.turn h.connected))).gateway =
      (h.gateway.connect id client).2 := by
  have hserial : h.gateway.registry.opened = h.connected := ha.serials
  have hopened : h.step (.connect id client) = h.welcome id client := if_pos hlistening
  have hdue : (h.welcome id client).due h.connected =
      (h.gateway.enter id client).2.registry.entryFigures := by
    rw [← hserial]
    exact Function.update_self ..
  show ((h.step (.connect id client)).exec _).gateway = _
  rw [hopened]
  refine (exec_figures _ hdue).1.trans ?_
  unfold Gateway.connect
  rw [if_pos hlistening]
  rfl

/-- A session takes its last turn, and writes its figures. -/
theorem exec_last (hdue : h.due k = []) (hlast : (h.next k).isLast = true) :
    (h.exec (List.replicate 3 (.turn k))).gateway = (h.next k).gateway.depart k ∧
      (h.exec (List.replicate 3 (.turn k))).lines =
        Function.update h.lines k ((h.lines k).after (h.next k)) ∧
      (h.exec (List.replicate 3 (.turn k))).due = h.due := by
  have hturned := h.next_turned k
  obtain ⟨o, hfront⟩ := hturned.front
  have hregistry : (h.next k).gateway.registry = h.gateway.registry := by
    refine (congrArg Front.registry hfront).trans ?_
    cases o <;> rfl
  have hpresent : (h.next k).gateway.registry.isOpen k = true := by
    rw [hregistry]
    exact hturned.isOpen_of_isLast hlast
  have hfigures : (h.attend k).due k = ((h.next k).gateway.leave k).registry.figures := by
    rw [due_attend, if_pos hlast]
    exact Function.update_self ..
  have hgateway : (h.attend k).gateway = (h.next k).gateway.leave k := by
    rw [gateway_attend, if_pos hlast]
  obtain ⟨htold, hlines, hrest⟩ := exec_figures _ hfigures
  rw [hgateway] at htold
  rw [lines_attend] at hlines
  rw [due_attend, if_pos hlast, Function.update_idem, ← hdue, Function.update_eq_self] at hrest
  rw [List.replicate_succ]
  show ((h.step (.turn k)).exec _).gateway = _ ∧ ((h.step (.turn k)).exec _).lines = _ ∧
    ((h.step (.turn k)).exec _).due = _
  rw [step_turn_free hdue]
  refine ⟨?_, hlines, hrest⟩
  unfold Gateway.depart
  rw [if_pos hpresent]
  exact htold

/-- A session that has nothing to do any number of times. -/
theorem exec_idle (hdue : h.due k = []) (hidle : h.next k = ⟨none, [], false, h.gateway⟩) (n : Nat) :
    h.exec (List.replicate n (.turn k)) = h := by
  induction n with
  | zero => rfl
  | succ n ih =>
    rw [List.replicate_succ]
    show (h.step (.turn k)).exec _ = h
    rw [step_turn_free hdue, attend_of_idle hidle]
    exact ih

/-- A frame that comes when none waits is taken, and the figures are written if it is the last. -/
theorem exec_receive (hk : k < h.connected) (hempty : (h.lines k).inbox = []) (hdue : h.due k = [])
    (f : Frame) :
    (h.exec (.send k f :: List.replicate 3 (.turn k))).gateway = (h.gateway.receive k f).2 ∧
      ((h.exec (.send k f :: List.replicate 3 (.turn k))).lines k).replies =
        (h.lines k).replies ++ (h.gateway.receive k f).1 := by
  have hsend : h.step (.send k f) = h.onLine k fun l => l.send f := if_pos hk
  have hinbox : ((h.onLine k fun l => l.send f).lines k).inbox = [f] := by
    rw [onLine_self]
    show (h.lines k).inbox ++ [f] = [f]
    rw [hempty]
    rfl
  have hreplies : ((h.onLine k fun l => l.send f).lines k).replies = (h.lines k).replies := by
    rw [onLine_self]
    rfl
  have hsame : (h.onLine k fun l => l.send f).gateway = h.gateway := rfl
  have hfree : (h.onLine k fun l => l.send f).due k = [] := hdue
  show ((h.step (.send k f)).exec _).gateway = _ ∧ (((h.step (.send k f)).exec _).lines k).replies = _
  rw [hsend, ← hreplies]
  generalize (h.onLine k fun l => l.send f) = a at hinbox hsame hfree
  have hnext : a.next k = h.gateway.turn k (some f) := by
    unfold next
    rw [hinbox, hsame]
    rfl
  unfold Gateway.receive afterTurn
  dsimp only
  rw [← hnext]
  cases hlast : (a.next k).isLast with
  | true =>
    obtain ⟨hgateway, hlines, -⟩ := exec_last hfree hlast
    rw [hlines, Function.update_self]
    exact ⟨hgateway, rfl⟩
  | false =>
    have hline : (a.attend k).lines k = (a.lines k).after (a.next k) := by
      rw [lines_attend, Function.update_self]
    have hgateway : (a.attend k).gateway = (a.next k).gateway := by
      rw [gateway_attend, hlast]
      rfl
    have hstill : (a.attend k).due k = [] := by
      rw [due_attend, hlast]
      exact hfree
    -- nothing is left to do after the first turn
    have hidle : (a.attend k).next k = ⟨none, [], false, (a.attend k).gateway⟩ := by
      cases a.next_turned k with
      | idle hnothing hturn =>
        rw [attend_of_idle hturn]
        exact hturn
      | dismissed _ _ hturn =>
        rw [hturn] at hlast
        cases hlast
      | heard _ _ _ hgoing _ htaken =>
        have hcalm : (a.attend k).gateway.stopping = false := (a.stopping_attend k).trans hgoing
        have hnone : ((a.attend k).lines k).inbox = [] := by
          rw [hline]
          unfold Line.after
          rw [htaken, hinbox]
          rfl
        cases (a.attend k).next_turned k with
        | idle _ hturn => exact hturn
        | dismissed _ hstop => cases hstop.symm.trans hcalm
        | heard _ _ _ _ hnext =>
          rw [hnone] at hnext
          cases hnext
    have hrest := exec_idle hstill hidle 2
    rw [List.replicate_succ]
    show ((a.step (.turn k)).exec _).gateway = _ ∧ (((a.step (.turn k)).exec _).lines k).replies = _
    rw [step_turn_free hfree, hrest, hline]
    exact ⟨hgateway, rfl⟩

/-! ## A stop -/

/-- The steps of a stop that waits for the open sessions. -/
def shutDownSteps (h : Hall) : List Step :=
  .stop :: ((h.gateway.registry.live.flatMap fun s => List.replicate 3 (.turn s.serial)) ++
    [.background .stop, .finish])

/-- A stop does not wait for frames. -/
theorem turn_of_stopping {g : Gateway} (hstop : g.stopping = true) (serial : Nat) (next : Option Frame) :
    g.turn serial next = g.turn serial none := by
  unfold Gateway.turn
  cases g.session? serial with
  | none => rfl
  | some s =>
    dsimp only
    rw [if_pos hstop, if_pos hstop]

theorem exec_turns_of_stopping (hstop : h.gateway.stopping = true) (hquiet : ∀ j, h.due j = []) (k : Nat) :
    (h.exec (List.replicate 3 (.turn k))).gateway = afterTurn k (h.gateway.turn k none) ∧
      ∀ j, (h.exec (List.replicate 3 (.turn k))).due j = [] := by
  have hnext : h.next k = h.gateway.turn k none := turn_of_stopping hstop k _
  unfold afterTurn
  rw [← hnext]
  cases h.next_turned k with
  | idle _ hturn =>
    rw [exec_idle (hquiet k) hturn, hturn]
    exact ⟨rfl, hquiet⟩
  | dismissed _ _ hturn =>
    have hlast : (h.next k).isLast = true := by rw [hturn]
    obtain ⟨hgateway, -, hdue⟩ := exec_last (hquiet k) hlast
    rw [hgateway, hdue, if_pos hlast]
    exact ⟨rfl, hquiet⟩
  | heard _ _ _ hgoing => cases hstop.symm.trans hgoing

theorem gateway_exec_turns (hstop : h.gateway.stopping = true) (hquiet : ∀ j, h.due j = [])
    (sessions : List Session) :
    (h.exec (sessions.flatMap fun s => List.replicate 3 (.turn s.serial))).gateway =
      (sessions.map Session.serial).foldl (fun g serial => afterTurn serial (g.turn serial none))
        h.gateway := by
  induction sessions generalizing h with
  | nil => rfl
  | cons s rest ih =>
    obtain ⟨hgateway, hstill⟩ := exec_turns_of_stopping hstop hquiet s.serial
    have hrest := ih (stopping_exec hstop _) hstill
    rw [List.flatMap_cons, exec_append, hrest, hgateway]
    rfl

/-- The stop of a gateway is a run, if all figures are written when it begins. -/
theorem gateway_exec_shutDown (hlistening : h.gateway.listening = true) (hquiet : ∀ j, h.due j = []) :
    (h.exec h.shutDownSteps).gateway = h.gateway.shutDown.2 := by
  have hbegin := gateway_stop hlistening
  have hstop : (h.step .stop).gateway.stopping = true := congrArg Gateway.stopping hbegin
  have hlive : (h.step .stop).gateway.registry = h.gateway.registry := by
    rw [hbegin]
  have hturns := gateway_exec_turns hstop hquiet h.gateway.registry.live
  have hstill := stopping_exec hstop
    (h.gateway.registry.live.flatMap fun s => List.replicate 3 (.turn s.serial))
  show ((h.step .stop).exec (_ ++ _)).gateway = _
  rw [exec_append]
  generalize (h.step .stop).exec
    (h.gateway.registry.live.flatMap fun s => List.replicate 3 (.turn s.serial)) = closed at hturns hstill
  have hfinish : (closed.exec [.background .stop, .finish]).gateway =
      closed.gateway.stopBatching.endStop :=
    congrArg gateway (if_pos (stopping_step hstill (.background .stop)))
  unfold Gateway.shutDown
  rw [hfinish, hturns, if_pos hlistening, ← hlive]
  rfl

theorem replies_exec_shutDown (ha : h.IsAttended c) (hlistening : h.gateway.listening = true)
    (hdue : h.due k = []) (hpresent : h.gateway.registry.isOpen k = true) :
    ((h.exec h.shutDownSteps).lines k).replies = (h.lines k).replies ++ [.goingAway] := by
  have hbegin := gateway_stop hlistening
  have hstop : (h.step .stop).gateway.stopping = true := congrArg Gateway.stopping hbegin
  have hstill : (h.step .stop).gateway.registry.isOpen k = true := by
    rw [hbegin]
    exact hpresent
  have hturn : Step.turn k ∈
      h.gateway.registry.live.flatMap fun s => List.replicate 3 (Step.turn s.serial) := by
    obtain ⟨s, hs, hserial⟩ := List.any_eq_true.1 hpresent
    refine List.mem_flatMap.2 ⟨s, hs, ?_⟩
    rw [eq_of_beq hserial]
    exact List.mem_replicate.2 ⟨by decide, rfl⟩
  have hsent := replies_exec_of_stopping (attended_step ha .stop) hstop hstill
    ((h.gateway.registry.live.flatMap fun s => List.replicate 3 (.turn s.serial)) ++
      [.background .stop, .finish])
  have hcount : 0 < ((h.gateway.registry.live.flatMap fun s => List.replicate 3 (Step.turn s.serial)) ++
      [Step.background .stop, Step.finish]).countP (Step.isTurn k) :=
    List.countP_pos_iff.2 ⟨_, List.mem_append_left _ hturn, beq_self_eq_true k⟩
  rw [show (h.step .stop).due k = [] from hdue, List.length_nil, if_pos hcount] at hsent
  exact hsent

end Hall

end Ingress
