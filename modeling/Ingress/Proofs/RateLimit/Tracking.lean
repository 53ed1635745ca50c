import Mathlib
import Ingress.Proofs.RateLimit.Run
import Ingress.Proofs.RateLimit.Window
import Ingress.Proofs.Table

/-!
# The histories that a limiter tracks

A limiter forgets what is old: windows are pruned by every read, and idle clients are reaped. The
naive limiter forgets nothing.

* `Client.Tracks` : both windows of a client hold its history;
* `Limiter.Tracks` : every client that holds state tracks its history, and a client without state
  has no admission that still counts;
* `Naive.next` : the histories after a call;
* `Limiter.Tracks.answer` : a call keeps the relation;
* `Limiter.Tracks.exec` : so does a run, whose admissions and verdicts are those of the naive
  limiter.
-/

namespace Ingress.RateLimit

/-! ## One client -/

namespace Client

/-- Both windows hold the history, and the last check is no earlier than any admission. -/
structure Tracks (cfg : RateLimit.Config) (past : List Int) (c : Client) (now : Int) : Prop where
  burst : Holds cfg.burstWindow past c.burst now
  sustained : Holds cfg.sustainedWindow past c.sustained now
  seen : ∀ t ∈ past, t ≤ c.lastSeen
  arrived : c.lastSeen ≤ now

namespace Tracks

variable {cfg : RateLimit.Config} {past : List Int} {c : Client} {now : Int}

theorem later (h : c.Tracks cfg past now) {now' : Int} (hle : now ≤ now') :
    c.Tracks cfg past now' :=
  ⟨h.burst.later hle, h.sustained.later hle, h.seen, h.arrived.trans hle⟩

theorem pruned (h : c.Tracks cfg past now) : (c.pruned cfg now).Tracks cfg past now :=
  ⟨h.burst.prune, h.sustained.prune, h.seen, h.arrived⟩

/-- A check answers as the naive limiter, and the client tracks the history after it. -/
theorem check (h : c.Tracks cfg past now) :
    (c.check cfg now).1.verdict? = some (Naive.verdict cfg past now) ∧
      (c.check cfg now).2.Tracks cfg (Naive.record cfg past now) now := by
  have hpast : ∀ t ∈ past, t ≤ now := fun t ht => (h.seen t ht).trans h.arrived
  have hburst := h.burst.length_prune
  have hsustained := h.sustained.length_prune
  have hrefused : ∀ n,
      Tracks cfg past { c.pruned cfg now with rejections := n, lastSeen := now } now :=
    fun n => ⟨h.burst.prune, h.sustained.prune, hpast, le_rfl⟩
  unfold Client.check Naive.record Naive.verdict
  dsimp only [Client.pruned]
  rw [hburst, hsustained]
  split
  next => exact ⟨rfl, hrefused _⟩
  next =>
    split
    next => exact ⟨rfl, hrefused _⟩
    next =>
      exact ⟨rfl, h.burst.prune.push hpast, h.sustained.prune.push hpast, le_of_mem_push hpast,
        le_rfl⟩

end Tracks

end Client

/-! ## All clients -/

abbrev Histories := String → List Int

/-- The histories after a call: only a check of a client changes one, and only its own. -/
def Naive.next (cfg : RateLimit.Config) (past : Histories) (c : Call) : Histories :=
  match c.request with
  | .check id =>
    if isClientId id then Function.update past id (record cfg (past id) c.time) else past
  | _ => past

namespace Limiter

/-- Clients that hold state track their history, and those without have no admission that still
counts. -/
structure Tracks (l : Limiter) (past : Histories) (now : Int) : Prop where
  held : ∀ id c, l.clients.get? id = some c → c.Tracks l.config (past id) now
  absent : ∀ id, l.clients.get? id = none → ∀ t ∈ past id, l.config.sustainedWindow ≤ now - t
  earlier : ∀ id, ∀ t ∈ past id, t ≤ now

namespace Tracks

variable {l : Limiter} {past : Histories} {now : Int}

theorem ofConfig (cfg : RateLimit.Config) (now : Int) :
    (Limiter.ofConfig cfg).Tracks (fun _ => []) now :=
  ⟨fun _ _ h => (by cases h), fun _ _ _ ht => (by cases ht), fun _ _ ht => (by cases ht)⟩

theorem later (h : l.Tracks past now) {now' : Int} (hle : now ≤ now') : l.Tracks past now' := by
  refine ⟨fun id c hc => (h.held id c hc).later hle, fun id hc t ht => ?_,
    fun id t ht => (h.earlier id t ht).trans hle⟩
  have hold := h.absent id hc t ht
  omega

/-- A client without state starts with empty windows, and misses nothing. -/
theorem client (h : l.Tracks past now) (hwindows : l.config.burstWindow ≤ l.config.sustainedWindow)
    (id : String) :
    ((l.clients.get? id).getD (.fresh now)).Tracks l.config (past id) now := by
  cases hc : l.clients.get? id with
  | some c => exact h.held id c hc
  | none =>
    have hold := h.absent id hc
    exact ⟨Holds.of_old hwindows hold, Holds.of_old le_rfl hold, h.earlier id, le_rfl⟩

theorem insert (h : l.Tracks past now) (id : String) {times : List Int} {c : Client}
    (hc : c.Tracks l.config times now) :
    Tracks { l with clients := l.clients.insert id c } (Function.update past id times) now := by
  have hget : ∀ j, (l.clients.insert id c).get? j = if j = id then some c else l.clients.get? j :=
    fun j => Table.get?_insert l.clients id j c
  refine ⟨fun j d hj => ?_, fun j hj => ?_, fun j => ?_⟩
  · change (l.clients.insert id c).get? j = some d at hj
    rw [hget] at hj
    split at hj
    next heq =>
      cases hj
      rw [heq, Function.update_self]
      exact hc
    next hne =>
      rw [Function.update_of_ne hne]
      exact h.held j d hj
  · change (l.clients.insert id c).get? j = none at hj
    rw [hget] at hj
    split at hj
    next => cases hj
    next hne =>
      rw [Function.update_of_ne hne]
      exact h.absent j hj
  · by_cases heq : j = id
    · rw [heq, Function.update_self]
      exact fun t ht => (hc.seen t ht).trans hc.arrived
    · rw [Function.update_of_ne heq]
      exact h.earlier j

theorem usage (h : l.Tracks past now) (id : String) : (l.usage id now).2.Tracks past now := by
  unfold Limiter.usage
  split
  next => exact h
  next c hc =>
    have hnew := h.insert id (h.held id c hc).pruned
    rwa [Function.update_eq_self] at hnew

theorem top (h : l.Tracks past now) (limit : Nat) : (l.top limit now).2.Tracks past now := by
  have hget : ∀ id, (l.top limit now).2.clients.get? id
      = (l.clients.get? id).map fun c => c.pruned l.config now := fun id => Table.get?_map _ _ id
  refine ⟨fun id d hd => ?_, fun id hnone => ?_, h.earlier⟩
  · rw [hget, Option.map_eq_some_iff] at hd
    obtain ⟨c, hc, rfl⟩ := hd
    exact (h.held id c hc).pruned
  · rw [hget, Option.map_eq_none_iff] at hnone
    exact h.absent id hnone

/-- A client that is reaped has no admission that still counts. -/
theorem cleanup (h : l.Tracks past now) : (l.cleanup now).2.Tracks past now := by
  have hget : ∀ id, (l.cleanup now).2.clients.get? id = (l.clients.get? id).filter fun c =>
      decide (span c.lastSeen now < l.config.sustainedWindow) := fun id => Table.get?_filter _ _ id
  refine ⟨fun id c hc => ?_, fun id hnone t ht => ?_, h.earlier⟩
  · rw [hget, Option.filter_eq_some_iff] at hc
    exact h.held id c hc.1
  · rw [hget] at hnone
    cases hc : l.clients.get? id with
    | none => exact h.absent id hc t ht
    | some c =>
      have htracks := h.held id c hc
      have hseen := htracks.seen t ht
      have harrived := htracks.arrived
      have hidle : ¬ span c.lastSeen now < l.config.sustainedWindow := by
        intro hbusy
        rw [hc, Option.filter_some, if_pos (decide_eq_true hbusy)] at hnone
        cases hnone
      unfold span at hidle
      show (l.config.sustainedWindow : Int) ≤ now - t
      omega

/-- A check answers as the naive limiter, whatever has been forgotten. -/
theorem verdict (h : l.Tracks past now) (hwindows : l.config.burstWindow ≤ l.config.sustainedWindow)
    {id : String} (hid : isClientId id = true) :
    (l.check id now).1.verdict? = some (Naive.verdict l.config (past id) now) := by
  unfold Limiter.check
  rw [if_pos hid]
  exact (h.client hwindows id).check.1

theorem check (h : l.Tracks past now) (hwindows : l.config.burstWindow ≤ l.config.sustainedWindow)
    (id : String) :
    (l.check id now).2.Tracks (Naive.next l.config past ⟨now, .check id⟩) now := by
  unfold Limiter.check Naive.next
  dsimp only
  split
  next => exact h.insert id (h.client hwindows id).check.2
  next => exact h

/-- A call keeps the relation. -/
theorem answer (h : l.Tracks past now) (hwindows : l.config.burstWindow ≤ l.config.sustainedWindow)
    {c : Call} (hle : now ≤ c.time) :
    (l.answer c).2.Tracks (Naive.next l.config past c) c.time := by
  have hnow := h.later hle
  obtain ⟨time, request⟩ := c
  cases request with
  | check id => exact hnow.check hwindows id
  | usage id => exact hnow.usage id
  | top limit => exact hnow.top limit
  | cleanup => exact hnow.cleanup

end Tracks

end Limiter

/-! ## Histories -/

namespace Naive

theorem verdicts_append (cfg : RateLimit.Config) (xs ys : List Int) : ∀ past,
    verdicts cfg past (xs ++ ys)
      = verdicts cfg past xs ++ verdicts cfg (admissions cfg past xs) ys := by
  induction xs with
  | nil => exact fun _ => rfl
  | cons now rest ih =>
    intro past
    rw [List.cons_append, verdicts, verdicts, ih, List.cons_append]
    rfl

theorem admissions_append (cfg : RateLimit.Config) (past xs ys : List Int) :
    admissions cfg past (xs ++ ys) = admissions cfg (admissions cfg past xs) ys :=
  List.foldl_append

/-- The history of a client is a matter of its own checks. -/
theorem next_apply (cfg : RateLimit.Config) (past : Histories) (c : Call) {id : String}
    (hid : isClientId id = true) :
    next cfg past c id = admissions cfg (past id) (c.checkTime? id).toList := by
  obtain ⟨time, request⟩ := c
  unfold next Call.checkTime?
  cases request with
  | check j =>
    dsimp only
    by_cases hj : j = id
    · subst hj
      rw [if_pos hid, if_pos rfl, Function.update_self]
      rfl
    · have hne : Request.check j ≠ .check id := fun h => hj (by cases h; rfl)
      rw [if_neg hne]
      split
      next => exact Function.update_of_ne (Ne.symm hj) _ _
      next => rfl
  | usage | top | cleanup => rfl

theorem next_of_malformed (cfg : RateLimit.Config) (past : Histories) (c : Call) {id : String}
    (hid : isClientId id = false) : next cfg past c id = past id := by
  obtain ⟨time, request⟩ := c
  unfold next
  cases request with
  | check j =>
    dsimp only
    split
    next hj =>
      have hne : id ≠ j := by
        rintro rfl
        rw [hid] at hj
        cases hj
      exact Function.update_of_ne hne _ _
    next => rfl
  | usage | top | cleanup => rfl

end Naive

/-! ## Runs -/

namespace Limiter

theorem config_answer (l : Limiter) (c : Call) : (l.answer c).2.config = l.config := by
  obtain ⟨time, request⟩ := c
  cases request with
  | check id =>
    show (l.check id time).2.config = l.config
    unfold check
    split <;> rfl
  | usage id =>
    show (l.usage id time).2.config = l.config
    unfold usage
    split <;> rfl
  | top | cleanup => rfl

theorem config_exec (calls : List Call) : ∀ l : Limiter, (l.exec calls).2.config = l.config := by
  induction calls with
  | nil => exact fun _ => rfl
  | cons c rest ih => exact fun l => (ih _).trans (config_answer l c)

theorem admission?_answer (l : Limiter) (c : Call) (id : String) :
    Exchange.admission? id ⟨c, (l.answer c).1⟩ =
      (c.checkTime? id).map fun now => (l.check id now).1 := by
  obtain ⟨time, request⟩ := c
  unfold Exchange.admission? Call.checkTime? answer
  cases request with
  | check j =>
    dsimp only
    split
    next h => cases h; rfl
    next => rfl
  | usage | top | cleanup => rfl

theorem check_of_malformed (l : Limiter) {id : String} (hid : isClientId id = false) (now : Int) :
    (l.check id now).1 = .invalidClient := by
  unfold check
  rw [if_neg (by simp [hid])]

theorem admittedAt?_of_malformed (l : Limiter) (c : Call) {id : String}
    (hid : isClientId id = false) : Exchange.admittedAt? id ⟨c, (l.answer c).1⟩ = none := by
  unfold Exchange.admittedAt?
  rw [admission?_answer]
  rcases c.checkTime?_cases id with hc | hc
  · rw [hc]
    rfl
  · rw [hc, Option.map_some, check_of_malformed l hid]
    rfl

theorem admissions_of_malformed (calls : List Call) {id : String} (hid : isClientId id = false) :
    ∀ l : Limiter, admissions id (l.exec calls).1 = [] := by
  induction calls with
  | nil => exact fun _ => rfl
  | cons c rest ih =>
    intro l
    rw [exec, admissions_cons, admittedAt?_of_malformed l c hid, ih]
    rfl

section Step

variable {l : Limiter} {past : Histories} {c : Call}

/-- An exchange adds to a history what the naive limiter adds. -/
theorem Tracks.admittedAt?_answer (h : l.Tracks past c.time)
    (hwindows : l.config.burstWindow ≤ l.config.sustainedWindow) (id : String) :
    past id ++ (Exchange.admittedAt? id ⟨c, (l.answer c).1⟩).toList
      = Naive.next l.config past c id := by
  cases hid : isClientId id with
  | false =>
    rw [Naive.next_of_malformed _ _ _ hid, admittedAt?_of_malformed l c hid]
    exact List.append_nil _
  | true =>
    unfold Exchange.admittedAt?
    rw [admission?_answer, Naive.next_apply _ _ _ hid]
    rcases c.checkTime?_cases id with hc | hc
    · rw [hc]
      exact List.append_nil _
    · rw [hc, Option.map_some]
      have hverdict := h.verdict hwindows hid
      show _ = Naive.record l.config (past id) c.time
      unfold Naive.record
      by_cases hadmitted : Naive.verdict l.config (past id) c.time = .admitted
      · rw [if_pos hadmitted, if_pos]
        · rfl
        · rw [hadmitted, Admission.verdict?_eq_admitted] at hverdict
          rw [hverdict]
      · rw [if_neg hadmitted, if_neg]
        · exact List.append_nil _
        · intro hanswer
          rw [Option.some_inj] at hanswer
          rw [hanswer] at hverdict
          exact hadmitted (Option.some_inj.1 hverdict).symm

theorem Tracks.verdict_answer (h : l.Tracks past c.time)
    (hwindows : l.config.burstWindow ≤ l.config.sustainedWindow) {id : String}
    (hid : isClientId id = true) :
    ((Exchange.admission? id ⟨c, (l.answer c).1⟩).bind Admission.verdict?).toList
      = Naive.verdicts l.config (past id) (c.checkTime? id).toList := by
  rw [admission?_answer]
  rcases c.checkTime?_cases id with hc | hc
  · rw [hc]
    rfl
  · rw [hc, Option.map_some, Option.bind_some, h.verdict hwindows hid]
    rfl

theorem Tracks.histories_cons (h : l.Tracks past c.time)
    (hwindows : l.config.burstWindow ≤ l.config.sustainedWindow) (rest : List Call) (id : String) :
    past id ++ admissions id (l.exec (c :: rest)).1
      = Naive.next l.config past c id ++ admissions id ((l.answer c).2.exec rest).1 := by
  rw [← h.admittedAt?_answer hwindows id, exec, admissions_cons, List.append_assoc]

end Step

/-- A run keeps the relation, and adds to the histories what the naive limiter adds. -/
theorem Tracks.exec (calls : List Call) {fin : Int} :
    ∀ {l : Limiter} {past : Histories} {now : Int}, l.Tracks past now →
      l.config.burstWindow ≤ l.config.sustainedWindow →
      (now :: (calls.map Call.time ++ [fin])).Pairwise (· ≤ ·) →
      (l.exec calls).2.Tracks (fun id => past id ++ admissions id (l.exec calls).1) fin ∧
      ∀ id, isClientId id = true →
        past id ++ admissions id (l.exec calls).1
            = Naive.admissions l.config (past id) (checkTimes id calls) ∧
          verdicts id (l.exec calls).1 = Naive.verdicts l.config (past id) (checkTimes id calls) := by
  induction calls with
  | nil =>
    intro l past now h _ htimes
    have hle : now ≤ fin := by simpa using htimes
    refine ⟨?_, fun id _ => ⟨List.append_nil _, rfl⟩⟩
    have hpast : (fun id => past id ++ admissions id []) = past := by
      funext id
      exact List.append_nil _
    show l.Tracks (fun id => past id ++ admissions id []) fin
    rw [hpast]
    exact h.later hle
  | cons c rest ih =>
    intro l past now h hwindows htimes
    have hle : now ≤ c.time := (List.pairwise_cons.1 htimes).1 _ (by simp)
    have hrest := (List.pairwise_cons.1 htimes).2
    have hnext := h.answer hwindows hle
    rw [← config_answer l c] at hwindows
    obtain ⟨htracks, hids⟩ := ih hnext hwindows hrest
    rw [config_answer] at hwindows hids
    have hpast := (h.later hle).histories_cons hwindows rest
    refine ⟨?_, fun id hid => ⟨?_, ?_⟩⟩
    · rw [show (fun id => past id ++ admissions id (l.exec (c :: rest)).1) = _ from funext hpast]
      exact htracks
    · rw [hpast, (hids id hid).1, Naive.next_apply _ _ _ hid, checkTimes_cons,
        Naive.admissions_append]
    · rw [Limiter.exec, verdicts_cons, (hids id hid).2, (h.later hle).verdict_answer hwindows hid,
        checkTimes_cons, Naive.verdicts_append, Naive.next_apply _ _ _ hid]

end Limiter

end Ingress.RateLimit
