import Ingress.Config.Section
import Ingress.Validation.Limits

/-!
# The section of the aggregator

* `Aggregator.Config` : the window and size of a batch, the size of the queue, and how long a stop
  waits for deliveries;
* `Aggregator.Config.slowThreshold` : the cycle time from which a batch counts as slow;
* `Aggregator.config` : its settings.
-/

namespace Ingress.Aggregator

open Config

structure Config where
  batchWindow : Nat
  maxBatchSize : Nat
  maxQueueSize : Nat
  statsHistory : Nat
  slowFactor : Double
  drainTimeout : Nat

def oneAndHalf : Double := (real 3).div (real 2)

/-- Batches of a tenth of a second. -/
def Config.standard : Config :=
  { batchWindow := 100
    maxBatchSize := 1000
    maxQueueSize := 10000
    statsHistory := 100
    slowFactor := oneAndHalf
    drainTimeout := 10000 }

/-- The milliseconds above which the cycle of a batch counts as slow. -/
def Config.slowThreshold (c : Config) : Double := (real c.batchWindow).mul c.slowFactor

/-- The settings of the aggregator; times are in milliseconds. -/
def config : Section Aggregator.Config :=
  { typeName := "AggregatorConfig"
    standard := .standard
    settings :=
      [.nat "batch_window_ms" .u64 (.between 1 60000) (·.batchWindow)
          fun n c => { c with batchWindow := n },
        .nat "max_batch_size" .size (.between 1 100000) (·.maxBatchSize)
          fun n c => { c with maxBatchSize := n },
        .nat "max_queue_size" .size (.between 1 1000000) (·.maxQueueSize)
          fun n c => { c with maxQueueSize := n },
        .nat "stats_history" .size (.between 1 10000) (·.statsHistory)
          fun n c => { c with statsHistory := n },
        .real "slow_batch_factor" (.between (real 1) (real 100)) (·.slowFactor)
          fun d c => { c with slowFactor := d },
        .nat "drain_timeout_ms" .u64 (.between 1 600000) (·.drainTimeout)
          fun n c => { c with drainTimeout := n }] }

end Ingress.Aggregator
