import Ingress.Config.Section
import Ingress.Validation.Limits

/-!
# The sections of metrics and health

* `Health.Thresholds` : when a gateway counts as degraded, unhealthy or under attack;
* `Metrics.Config` : what is retained, the name in front of exported metrics, and the thresholds;
* `Health.config`, `Metrics.config` : their settings.
-/

namespace Ingress

open Config

/-- Thresholds of the health verdict; lookbacks are in seconds. -/
structure Health.Thresholds where
  errorRate : Double
  invalidRate : Double
  rateWindow : Nat
  securityEvents : Nat
  securityWindow : Nat

def tenth : Double := (real 1).div (real 10)

/-- A tenth of failures or of invalid messages, or 50 security events, within five minutes. -/
def Health.Thresholds.standard : Health.Thresholds :=
  { errorRate := tenth
    invalidRate := tenth
    rateWindow := 300
    securityEvents := 50
    securityWindow := 300 }

def Health.config : Section Health.Thresholds :=
  { typeName := "HealthThresholds"
    standard := .standard
    settings :=
      [.real "error_rate" (.between .zero (real 1)) (·.errorRate)
          fun d t => { t with errorRate := d },
        .real "invalid_rate" (.between .zero (real 1)) (·.invalidRate)
          fun d t => { t with invalidRate := d },
        .nat "rate_window_secs" .u64 (.between 1 86400) (·.rateWindow)
          fun n t => { t with rateWindow := n },
        .nat "security_events" .size .free (·.securityEvents)
          fun n t => { t with securityEvents := n },
        .nat "security_window_secs" .u64 (.between 1 86400) (·.securityWindow)
          fun n t => { t with securityWindow := n }] }

/-- What the metrics retain and how they are exported. -/
structure Metrics.Config where
  historySize : Nat
  securityLogSize : Nat
  exportName : String
  health : Health.Thresholds

/-- A thousand samples and a thousand security events. -/
def Metrics.Config.standard : Metrics.Config :=
  { historySize := 1000
    securityLogSize := 1000
    exportName := "gateway"
    health := .standard }

def Metrics.config : Section Metrics.Config :=
  { typeName := "MetricsConfig"
    standard := .standard
    settings :=
      [.nat "history_size" .size (.between 1 100000) (·.historySize)
          fun n c => { c with historySize := n },
        .nat "security_log_size" .size (.between 1 100000) (·.securityLogSize)
          fun n c => { c with securityLogSize := n },
        .text "prefix" (.between 1 64) (·.exportName) fun s c => { c with exportName := s },
        .nested "health" Health.config (·.health) fun t c => { c with health := t }] }

end Ingress
