import Ingress.Proofs.Gateway.Hall
import Mathlib

/-!
# The course of a session

Only a turn of its session moves a line, a turn of a session that has ended moves nothing, and a stop that
has begun is not taken back. So a line is final once its session has ended, no frame is taken once a stop has
begun, and a session that is open then is sent its close frame with the first turn for which it has no figure
left to write.

* `Goes`, `goes_step` : what every step does to the lines;
* `exchange_exec_of_ended` : a line whose session has ended;
* `stopping_exec_eq`, `taken_exec_of_stopping`, `replies_exec_of_stopping` : a stop.
-/

namespace Ingress

open Gateway

namespace Hall

variable {c : Gateway.Config} {h : Hall} {k : Nat}

/-! ## What a step does -/

theorem onLine_self (h : Hall) (k : Nat) (f : Line → Line) : (h.onLine k f).lines k = f (h.lines k) :=
  Function.update_self ..

theorem onLine_of_ne (h : Hall) {serial : Nat} (hne : k ≠ serial) (f : Line → Line) :
    (h.onLine serial f).lines k = h.lines k :=
  Function.update_of_ne hne ..

theorem step_turn_due {figure : Figure} {rest : List Figure} (hdue : h.due k = figure :: rest) :
    h.step (.turn k) = h.tell k figure rest := by
  unfold step
  dsimp only
  rw [hdue]

theorem step_turn_free (hdue : h.due k = []) : h.step (.turn k) = h.attend k := by
  unfold step
  dsimp only
  rw [hdue]

theorem lines_attend (h : Hall) (k : Nat) :
    (h.attend k).lines = Function.update h.lines k ((h.lines k).after (h.next k)) := by
  unfold attend
  dsimp only
  split
  · rfl
  · rfl

theorem gateway_attend (h : Hall) (k : Nat) : (h.attend k).gateway =
    if (h.next k).isLast then (h.next k).gateway.leave k else (h.next k).gateway := by
  unfold attend
  dsimp only
  split
  · rfl
  · rfl

theorem due_attend (h : Hall) (k : Nat) : (h.attend k).due =
    if (h.next k).isLast then Function.update h.due k ((h.next k).gateway.leave k).registry.figures
    else h.due := by
  unfold attend
  dsimp only
  split
  · rfl
  · rfl

theorem connected_attend (h : Hall) (k : Nat) : (h.attend k).connected = h.connected := by
  unfold attend
  dsimp only
  split
  · rfl
  · rfl

/-- A session that has nothing to do does nothing. -/
theorem attend_of_idle (hidle : h.next k = ⟨none, [], false, h.gateway⟩) : h.attend k = h := by
  have hline : (h.lines k).after (h.next k) = h.lines k := by
    rw [hidle]
    exact Line.after_idle rfl rfl
  have hsame : (h.onLine k fun l => l.after (h.next k)) = h := by
    unfold onLine
    dsimp only
    rw [hline, Function.update_eq_self]
  unfold attend
  dsimp only
  rw [hsame, hidle]
  rfl

theorem stopping_attend (h : Hall) (k : Nat) : (h.attend k).gateway.stopping = h.gateway.stopping := by
  obtain ⟨o, hfront⟩ := (h.next_turned k).front
  have hstopping : (h.next k).gateway.stopping = h.gateway.stopping := by
    refine (congrArg Front.stopping hfront).trans ?_
    cases o <;> rfl
  rw [gateway_attend]
  split
  · exact hstopping
  · exact hstopping

theorem stopping_tell (g : Gateway) (figure : Figure) : (g.tell figure).stopping = g.stopping := by
  cases figure <;> rfl

/-- From `h` to `h'` with a step: `connected`, nobody is forgotten; `stopping`, only a stop makes the gateway
stop; `exchange`, nothing but its turn makes a session take a frame or send anything. -/
structure Goes (s : Step) (h h' : Hall) : Prop where
  connected : h.connected ≤ h'.connected
  stopping : s.isStop = false → h'.gateway.stopping = h.gateway.stopping
  exchange : ∀ k, s.isTurn k = false → (h'.lines k).exchange = (h.lines k).exchange

theorem goes_step (h : Hall) (s : Step) : Goes s h (h.step s) := by
  have hstep := h.stepped s
  generalize h.step s = h' at hstep
  cases hstep with
  | connects => exact ⟨Nat.le_succ _, fun _ => rfl, fun _ _ => rfl⟩
  | @sends serial f =>
    refine ⟨le_rfl, fun _ => rfl, fun k _ => ?_⟩
    rcases eq_or_ne k serial with rfl | hne
    · rw [onLine_self]
      rfl
    · rw [onLine_of_ne h hne]
  | tells => exact ⟨le_rfl, fun _ => stopping_tell _ _, fun _ _ => rfl⟩
  | @attends serial hdue =>
    refine ⟨(h.connected_attend serial).ge, fun _ => h.stopping_attend serial, fun k hs => ?_⟩
    rw [lines_attend, Function.update_of_ne (Step.ne_of_isTurn hs)]
  | stops => exact ⟨le_rfl, nofun, fun _ _ => rfl⟩
  | proceeds b =>
    exact ⟨le_rfl, fun _ => congrArg Front.stopping (h.gateway.front_proceed b), fun _ _ => rfl⟩
  | answers r =>
    exact ⟨le_rfl, fun _ => congrArg Front.stopping (h.gateway.front_answer r), fun _ _ => rfl⟩
  | _ => exact ⟨le_rfl, fun _ => rfl, fun _ _ => rfl⟩

/-- Nothing but its turn makes a session owe figures, or write them. -/
theorem due_step_of_ne (ha : h.IsAttended c) (hk : k < h.connected) {s : Step} (hs : s.isTurn k = false) :
    (h.step s).due k = h.due k := by
  have hstep := h.stepped s
  generalize h.step s = h' at hstep
  cases hstep with
  | connects =>
    have hserial : h.gateway.registry.opened = h.connected := ha.serials
    exact Function.update_of_ne (hserial ▸ Nat.ne_of_lt hk) ..
  | tells => exact Function.update_of_ne (Step.ne_of_isTurn hs) ..
  | attends =>
    rw [due_attend]
    split
    · exact Function.update_of_ne (Step.ne_of_isTurn hs) ..
    · rfl
  | _ => rfl

theorem gateway_stop (hlistening : h.gateway.listening = true) :
    (h.step .stop).gateway = { h.gateway with stopping := true } :=
  if_pos hlistening

/-- A stop that finds the gateway at rest changes nothing. -/
theorem gateway_stop_of_idle (hidle : h.gateway.listening = false) :
    (h.step .stop).gateway = h.gateway :=
  if_neg (Bool.eq_false_iff.1 hidle)

theorem stopping_stop (hserved : h.gateway.listening = false → h.gateway.stopping = true) :
    (h.step .stop).gateway.stopping = true := by
  cases hlistening : h.gateway.listening with
  | true => rw [gateway_stop hlistening]
  | false =>
    rw [gateway_stop_of_idle hlistening]
    exact hserved hlistening

/-- A stop is not taken back. -/
theorem stopping_step (hstop : h.gateway.stopping = true) (s : Step) :
    (h.step s).gateway.stopping = true := by
  cases hs : s.isStop with
  | true =>
    obtain rfl := Step.eq_stop hs
    exact stopping_stop fun _ => hstop
  | false => exact ((goes_step h s).stopping hs).trans hstop

theorem stopping_exec (hstop : h.gateway.stopping = true) (steps : List Step) :
    (h.exec steps).gateway.stopping = true := by
  induction steps generalizing h with
  | nil => exact hstop
  | cons s rest ih => exact ih (stopping_step hstop s)

/-- The gateway stops when it is told to. -/
theorem stopping_exec_eq (ha : h.IsAttended c) (steps : List Step) :
    (h.exec steps).gateway.stopping = (h.gateway.stopping || steps.any Step.isStop) := by
  induction steps generalizing h with
  | nil => exact (Bool.or_false _).symm
  | cons s rest ih =>
    have hrest := ih (attended_step ha s)
    cases hs : s.isStop with
    | true =>
      obtain rfl := Step.eq_stop hs
      rw [stopping_stop ha.served, Bool.true_or] at hrest
      rw [List.any_cons, hs, Bool.true_or, Bool.or_true]
      exact hrest
    | false =>
      rw [(goes_step h s).stopping hs] at hrest
      rw [List.any_cons, hs, Bool.false_or]
      exact hrest

/-! ## Sessions that have ended -/

theorem exchange_step_of_ended (ha : h.IsAttended c) (hended : (h.lines k).ended c.frameLimit = true)
    (s : Step) : ((h.step s).lines k).exchange = (h.lines k).exchange := by
  cases hs : s.isTurn k with
  | false => exact (goes_step h s).exchange k hs
  | true =>
    obtain rfl := Step.eq_turn hs
    cases hdue : h.due k with
    | cons figure rest =>
      rw [step_turn_due hdue]
      rfl
    | nil =>
      rw [step_turn_free hdue]
      have hgone : h.gateway.registry.isOpen k ≠ true := fun hpresent => by
        rw [((ha.isOpen_iff k).1 hpresent).2] at hended
        cases hended
      have hidle : h.next k = ⟨none, [], false, h.gateway⟩ := by
        cases h.next_turned k with
        | idle _ hturn => exact hturn
        | dismissed hpresent => exact absurd hpresent hgone
        | heard _ _ hs => exact absurd (isOpen_of_session? hs).2 hgone
      rw [attend_of_idle hidle]

/-- A line is final once its session has ended. -/
theorem exchange_exec_of_ended (ha : h.IsAttended c) (hended : (h.lines k).ended c.frameLimit = true)
    (steps : List Step) : ((h.exec steps).lines k).exchange = (h.lines k).exchange := by
  induction steps generalizing h with
  | nil => rfl
  | cons s rest ih =>
    have hstep := exchange_step_of_ended ha hended s
    have hstill := (Line.ended_congr c.frameLimit hstep).trans hended
    exact (ih (attended_step ha s) hstill).trans hstep

/-! ## A stop -/

/-- Once a stop has begun, no session takes a frame. -/
theorem taken_exec_of_stopping (hstop : h.gateway.stopping = true) (steps : List Step) (k : Nat) :
    ((h.exec steps).lines k).taken = (h.lines k).taken := by
  induction steps generalizing h with
  | nil => rfl
  | cons s rest ih =>
    have hstep : ((h.step s).lines k).taken = (h.lines k).taken := by
      cases hs : s.isTurn k with
      | false => exact congrArg Prod.fst ((goes_step h s).exchange k hs)
      | true =>
        obtain rfl := Step.eq_turn hs
        cases hdue : h.due k with
        | cons figure rest =>
          rw [step_turn_due hdue]
          rfl
        | nil =>
          have htaken : (h.next k).taken = none := by
            cases h.next_turned k with
            | idle _ hturn => rw [hturn]
            | dismissed _ _ hturn => rw [hturn]
            | heard _ _ _ hgoing => cases hstop.symm.trans hgoing
          rw [step_turn_free hdue, lines_attend, Function.update_self]
          show (h.lines k).taken ++ (h.next k).taken.toList = _
          rw [htaken]
          exact List.append_nil _
    exact (ih (stopping_step hstop s)).trans hstep

/-- The turn of an open session that a stop ends. -/
theorem next_of_stopping (hstop : h.gateway.stopping = true)
    (hpresent : h.gateway.registry.isOpen k = true) :
    h.next k = ⟨none, [.goingAway], true, h.gateway⟩ := by
  cases h.next_turned k with
  | idle hnothing => cases hstop.symm.trans (hnothing hpresent).1
  | dismissed _ _ hturn => exact hturn
  | heard _ _ _ hgoing => cases hstop.symm.trans hgoing

theorem dismissed_turn (limit : Nat) (hstop : h.gateway.stopping = true)
    (hpresent : h.gateway.registry.isOpen k = true) :
    ((h.attend k).lines k).replies = (h.lines k).replies ++ [.goingAway] ∧
      ((h.attend k).lines k).ended limit = true := by
  have hreplies : ((h.attend k).lines k).replies = (h.lines k).replies ++ [.goingAway] := by
    rw [lines_attend, Function.update_self, next_of_stopping hstop hpresent]
    rfl
  refine ⟨hreplies, Line.ended_of_goingAway ?_⟩
  rw [hreplies]
  exact List.mem_append_right _ (List.mem_singleton.2 rfl)

/-- A session that is open when a stop has begun is sent one close frame, with the first turn after it has
written its figures, and nothing else. -/
theorem replies_exec_of_stopping (ha : h.IsAttended c) (hstop : h.gateway.stopping = true)
    (hpresent : h.gateway.registry.isOpen k = true) (steps : List Step) :
    ((h.exec steps).lines k).replies = (h.lines k).replies ++
      if (h.due k).length < steps.countP (Step.isTurn k) then [.goingAway] else [] := by
  induction steps generalizing h with
  | nil => exact (List.append_nil _).symm
  | cons s rest ih =>
    have hafter := attended_step ha s
    obtain ⟨hserial, hopen⟩ := (ha.isOpen_iff k).1 hpresent
    -- a step that moves nothing on the line leaves the session open
    have hstill (hsame : ((h.step s).lines k).exchange = (h.lines k).exchange) :
        (h.step s).gateway.registry.isOpen k = true :=
      (hafter.isOpen_iff k).2 ⟨hserial.trans_le (goes_step h s).connected,
        (Line.ended_congr c.frameLimit hsame).trans hopen⟩
    cases hs : s.isTurn k with
    | false =>
      have hsame := (goes_step h s).exchange k hs
      have hrest := ih hafter (stopping_step hstop s) (hstill hsame)
      rw [due_step_of_ne ha hserial hs, show ((h.step s).lines k).replies = _ from congrArg Prod.snd hsame]
        at hrest
      rw [List.countP_cons_of_neg (by simp [hs])]
      exact hrest
    | true =>
      rw [List.countP_cons_of_pos hs]
      obtain rfl := Step.eq_turn hs
      cases hdue : h.due k with
      | cons figure figures =>
        have htold : h.step (.turn k) = h.tell k figure figures := step_turn_due hdue
        have hrest := ih hafter (stopping_step hstop _) (hstill (by rw [htold]; rfl))
        rw [show (h.step (.turn k)).due k = figures by rw [htold]; exact Function.update_self ..,
          show ((h.step (.turn k)).lines k).replies = (h.lines k).replies by rw [htold]; rfl] at hrest
        rw [List.length_cons]
        simp only [Nat.add_lt_add_iff_right]
        exact hrest
      | nil =>
        obtain ⟨hreplies, hended⟩ := dismissed_turn c.frameLimit hstop hpresent
        rw [← step_turn_free hdue] at hreplies hended
        have hrest := congrArg Prod.snd (exchange_exec_of_ended hafter hended rest)
        rw [List.length_nil, if_pos (Nat.succ_pos _)]
        exact hrest.trans hreplies

end Hall

end Ingress
