import Mathlib
import Ingress.Proofs.Config.Check
import Ingress.Proofs.Health.Verdict
import Ingress.Proofs.Metrics.Run
import Ingress.Proofs.Recent

/-!
# Security events, of which the log keeps the last

The log holds the last security events, as many as its size; the verdict counts those of a window by
going back from the newest until one is too old. As long as the clock does not go back, what the log
has forgotten only matters once it is full of recent events, and then there are more of them than the
threshold.

* `securityLog_exec` : the log of a run is the end of all its security events;
* `securityCount` : the security events of a run from a time on;
* `exec_alerts` : what the verdict says about them.
-/

namespace Ingress.Metrics

/-! ## The last events -/

def Call.isSecurity (x : Call) : Bool :=
  match x.operation with
  | .security .. => true
  | _ => false

def Call.securityEvent? (x : Call) : Option SecurityEvent :=
  match x.operation with
  | .security type client details => some ⟨type, client, details, .ofMillis x.time⟩
  | _ => none

def securityEvents (calls : List Call) : List SecurityEvent := calls.filterMap Call.securityEvent?

/-- The number of security events that calls record from a time on. -/
def securityCount (since : Int) (calls : List Call) : Nat :=
  calls.countP fun x => x.isSecurity && decide (since ≤ x.time)

theorem securityLog_perform {c : Collector} (hsize : 0 < c.config.securityLogSize)
    {before : List SecurityEvent} (h : c.securityLog = before.rtake c.config.securityLogSize)
    {x : Call} (hx : x.isReset = false) :
    (c.perform x).securityLog =
      (before ++ x.securityEvent?.toList).rtake c.config.securityLogSize := by
  obtain ⟨time, operation⟩ := x
  cases operation with
  | security type client details =>
    show Collector.pushSecurity c.config.securityLogSize c.securityLog _ = _
    rw [h]
    exact push_rtake hsize before _
  | increment name n labels => exact h.trans (by rw [Call.securityEvent?]; simp)
  | setGauge name value labels => exact h.trans (by rw [Call.securityEvent?]; simp)
  | observe name value labels => exact h.trans (by rw [Call.securityEvent?]; simp)
  | reset => cases hx

/-- The log of a run is the end of all security events. -/
theorem securityLog_exec {c : Collector} (hsize : 0 < c.config.securityLogSize)
    {before : List SecurityEvent} (h : c.securityLog = before.rtake c.config.securityLogSize)
    {calls : List Call} (hcalls : ∀ x ∈ calls, x.isReset = false) :
    (c.exec calls).securityLog = (before ++ securityEvents calls).rtake c.config.securityLogSize := by
  induction calls generalizing c before with
  | nil => exact h.trans (by rw [securityEvents, List.filterMap_nil, List.append_nil])
  | cons x rest ih =>
    obtain ⟨hx, hrest⟩ := List.forall_mem_cons.1 hcalls
    have hconfig := c.config_perform x
    have hone := securityLog_perform hsize h hx
    rw [← hconfig] at hsize hone
    show ((c.perform x).exec rest).securityLog = _
    rw [ih hsize hone hrest, hconfig, List.append_assoc]
    congr 2
    unfold securityEvents
    cases hevent : x.securityEvent? with
    | none => rw [List.filterMap_cons_none hevent]; rfl
    | some e => rw [List.filterMap_cons_some hevent]; rfl

/-! ## Counting back -/

theorem total_ofMillis (ms : Int) : (Instant.ofMillis ms).total = ms * 1000000 := by
  unfold Instant.ofMillis Instant.total Instant.nanosPerSecond
  rw [Int.fdiv_eq_ediv_of_nonneg _ (by decide), Int.fmod_eq_emod_of_nonneg _ (by decide)]
  dsimp only
  omega

theorem total_ofMillis_le {s t : Int} :
    (Instant.ofMillis s).total ≤ (Instant.ofMillis t).total ↔ s ≤ t := by
  rw [total_ofMillis, total_ofMillis]
  omega

/-- Of what is at the end, counted back to the first that fails. -/
theorem length_takeWhile_rtake {α : Type} {p : α → Bool} {l : List α} (n : Nat)
    (h : l.Pairwise fun a b => p a = true → p b = true) :
    ((l.rtake n).reverse.takeWhile p).length = min (l.countP p) n := by
  have hback : l.reverse.Pairwise fun a b => p b = true → p a = true := List.pairwise_reverse.2 h
  rw [List.rtake_eq_reverse_take_reverse, List.reverse_reverse, ← List.take_takeWhile,
    takeWhile_eq_filter hback, List.length_take, List.filter_reverse, List.length_reverse,
    ← List.countP_eq_length_filter, Nat.min_comm]

/-- The clock does not go back from one security event to the next. -/
def SecurityTimely (calls : List Call) : Prop :=
  ((calls.filter Call.isSecurity).map Call.time).Pairwise (· ≤ ·)

instance (calls : List Call) : Decidable (SecurityTimely calls) :=
  inferInstanceAs (Decidable (List.Pairwise _ _))

theorem countP_securityEvents (since : Int) (calls : List Call) :
    (securityEvents calls).countP (fun e =>
      decide ((Instant.ofMillis since).total ≤ e.timestamp.total)) = securityCount since calls := by
  unfold securityEvents securityCount
  rw [List.countP_filterMap]
  refine List.countP_congr fun x _ => ?_
  obtain ⟨time, operation⟩ := x
  cases operation with
  | security type client details =>
    show decide ((Instant.ofMillis since).total ≤ (Instant.ofMillis time).total) = true ↔
      (true && decide (since ≤ time)) = true
    rw [Bool.true_and, decide_eq_true_eq, decide_eq_true_eq, total_ofMillis_le]
  | increment name n labels => exact Iff.rfl
  | setGauge name value labels => exact Iff.rfl
  | observe name value labels => exact Iff.rfl
  | reset => exact Iff.rfl

/-- Once a security event is recent, so are those after it. -/
theorem SecurityTimely.recent {calls : List Call} (h : SecurityTimely calls) (since : Int) :
    (securityEvents calls).Pairwise fun a b =>
      decide ((Instant.ofMillis since).total ≤ a.timestamp.total) = true →
        decide ((Instant.ofMillis since).total ≤ b.timestamp.total) = true := by
  have htime : ∀ {x : Call} {e : SecurityEvent}, x.securityEvent? = some e →
      x.isSecurity = true ∧ e.timestamp = .ofMillis x.time := by
    intro x e he
    unfold Call.securityEvent? at he
    split at he
    · next heq =>
      rw [← Option.some.inj he]
      exact ⟨by rw [Call.isSecurity, heq], rfl⟩
    · cases he
  unfold SecurityTimely at h
  rw [List.pairwise_map, List.pairwise_filter] at h
  refine List.pairwise_filterMap.2 (h.imp fun {x y} hxy e he e' he' hrecent => ?_)
  obtain ⟨hx, hex⟩ := htime he
  obtain ⟨hy, hey⟩ := htime he'
  rw [decide_eq_true_eq, hex, total_ofMillis_le] at hrecent
  rw [decide_eq_true_eq, hey, total_ofMillis_le]
  exact hrecent.trans (hxy hx hy)

/-- The log counts the security events from a time on up to its size. -/
theorem securitySince_exec {config : Metrics.Config} (hsize : 0 < config.securityLogSize)
    {calls : List Call} (hcalls : ∀ x ∈ calls, x.isReset = false) (htimely : SecurityTimely calls)
    (since : Int) : ((Collector.ofConfig config).exec calls).securitySince since =
      min (securityCount since calls) config.securityLogSize := by
  have hempty : (Collector.ofConfig config).securityLog = ([] : List SecurityEvent).rtake _ :=
    (List.rtake_nil config.securityLogSize).symm
  have hlog := securityLog_exec hsize hempty hcalls
  unfold Collector.securitySince
  rw [hlog, List.nil_append, length_takeWhile_rtake _ (htimely.recent since),
    countP_securityEvents]
  rfl

/-- **The verdict alerts exactly when more security events have been raised in the window than the
threshold allows**, however many of them the log has forgotten, and the report counts them up to the
size of the log. -/
theorem exec_alerts (g : Gateway.Config) (hg : g.check = .ok ()) (calls : List Call)
    (hcalls : ∀ x ∈ calls, x.isReset = false) (htimely : SecurityTimely calls) (now : Int) :
    (((Collector.ofConfig g.metrics).exec calls).health now).recentSecurityEvents =
        min (securityCount (now - g.metrics.health.securityWindow * 1000) calls)
          g.metrics.securityLogSize ∧
      ((((Collector.ofConfig g.metrics).exec calls).health now).status = .securityAlert ↔
        g.metrics.health.securityEvents <
          securityCount (now - g.metrics.health.securityWindow * 1000) calls) := by
  have hlog := Gateway.Config.securityLog_of_check hg
  have hconfig : ((Collector.ofConfig g.metrics).exec calls).config = g.metrics :=
    (Collector.ofConfig g.metrics).config_exec calls
  have hcount : (((Collector.ofConfig g.metrics).exec calls).healthCounts now).securityEvents =
      min (securityCount (now - g.metrics.health.securityWindow * 1000) calls)
        g.metrics.securityLogSize := by
    show ((Collector.ofConfig g.metrics).exec calls).securitySince _ = _
    rw [hconfig]
    exact securitySince_exec (by omega) hcalls htimely _
  -- a log is larger than the threshold, so to cut the count at its size does not undo an alert
  refine ⟨hcount, ?_⟩
  unfold Collector.health
  rw [Health.status_eq_securityAlert_iff, hcount, hconfig]
  omega

/-- A log of two events, and an alert above one. -/
def smallLog : Gateway.Config :=
  { Gateway.Config.standard with
    metrics := { Metrics.Config.standard with
      securityLogSize := 2
      health := { Health.Thresholds.standard with securityEvents := 1, securityWindow := 1 } } }

/-- Four security events with a counter between them. -/
def sampleAlerts : List Call :=
  [⟨0, .security "a" "c" .null⟩, ⟨500, .security "b" "c" .null⟩, ⟨100, .increment "n" 1 []⟩,
    ⟨900, .security "a" "d" .null⟩, ⟨1000, .security "a" "c" .null⟩]

theorem sampleAlerts_alert :
    (((Collector.ofConfig smallLog.metrics).exec sampleAlerts).health 1500).recentSecurityEvents = 2 ∧
      securityCount 500 sampleAlerts = 3 ∧
      (((Collector.ofConfig smallLog.metrics).exec sampleAlerts).health 1500).status =
        .securityAlert ∧
      (((Collector.ofConfig smallLog.metrics).exec sampleAlerts).health 2000).status ≠
        .securityAlert := by
  have hcheck : smallLog.check = .ok () :=
    (Gateway.Config.check_eq_ok_iff smallLog).2 ⟨by decide +kernel, by decide +kernel⟩
  have hat := exec_alerts smallLog hcheck sampleAlerts (by decide) (by decide)
  exact ⟨(hat 1500).1.trans (by decide), by decide, (hat 1500).2.2 (by decide),
    mt (hat 2000).2.1 (by decide)⟩

end Ingress.Metrics
