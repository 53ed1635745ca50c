import Ingress.Config.Section

/-!
# The section of the rate limiter

* `RateLimit.Config` : two sliding windows with the admissions each allows, and how often idle
  clients are reaped;
* `RateLimit.config` : its settings.
-/

namespace Ingress.RateLimit

open Config

structure Config where
  burstLimit : Nat
  burstWindow : Nat
  sustainedLimit : Nat
  sustainedWindow : Nat
  cleanupInterval : Nat

/-- 30 admissions in a second and 600 in a minute; idle clients are reaped every minute. -/
def Config.standard : Config :=
  { burstLimit := 30
    burstWindow := 1000
    sustainedLimit := 600
    sustainedWindow := 60000
    cleanupInterval := 60 }

/-- The settings of the rate limiter; windows are in milliseconds, the interval in seconds. -/
def config : Section RateLimit.Config :=
  { typeName := "RateLimitConfig"
    standard := .standard
    settings :=
      [.nat "burst_limit" .u32 (.atLeast 1) (·.burstLimit) fun n c => { c with burstLimit := n },
        .nat "burst_window_ms" .u64 (.atLeast 1) (·.burstWindow)
          fun n c => { c with burstWindow := n },
        .nat "sustained_limit" .u32 (.atLeast 1) (·.sustainedLimit)
          fun n c => { c with sustainedLimit := n },
        .nat "sustained_window_ms" .u64 (.atLeast 1) (·.sustainedWindow)
          fun n c => { c with sustainedWindow := n },
        .nat "cleanup_interval_secs" .u64 (.atLeast 1) (·.cleanupInterval)
          fun n c => { c with cleanupInterval := n }] }

end Ingress.RateLimit
