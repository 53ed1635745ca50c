import Ingress.Json.Decode
import Ingress.Metrics.Histogram

/-!
# Statistics of batches

* `Batch.Stats` : what is kept of one dispatched batch;
* `Batch.Ring` : the most recent of them, oldest first, and the number of ids issued so far;
* `Ring.nextId`, `Ring.record` : an id is issued, then the batch is recorded;
* `Batch.Summary`, `Ring.summary` : averages over the retained batches.
-/

namespace Ingress.Batch

open Json

/-- What is kept of one dispatched batch; the time runs from the opening of its window. -/
structure Stats where
  id : String
  events : Nat
  processingMs : Double
  queueAtStart : Nat
  timestamp : Instant

namespace Stats

/-- The fields of the statistics of a batch. -/
def record : Record Stats :=
  { name := "BatchStats"
    blank := ⟨"", 0, .zero, 0, .epoch⟩
    fields :=
      [.of "batch_id" .string fun t s => { s with id := t },
        .of "event_count" .size fun n s => { s with events := n },
        .of "processing_time_ms" .double fun d s => { s with processingMs := d },
        .of "queue_size_at_start" .size fun n s => { s with queueAtStart := n },
        .of "timestamp" .instant fun t s => { s with timestamp := t }] }

def toValue (s : Stats) : Value :=
  .object [("batch_id", .string s.id), ("event_count", .ofNat s.events),
    ("processing_time_ms", .ofDouble s.processingMs), ("queue_size_at_start", .ofNat s.queueAtStart),
    ("timestamp", .string s.timestamp.render)]

end Stats

/-- Averages over the retained batches. -/
structure Summary where
  running : Bool
  batchCount : Nat
  avgBatchSize : Double
  avgProcessingMs : Double
  maxProcessingMs : Double
  queueSize : Nat
  recentBatches : Nat

namespace Summary

def none (queueSize : Nat) (running : Bool) : Summary :=
  { running, queueSize
    batchCount := 0
    avgBatchSize := .zero
    avgProcessingMs := .zero
    maxProcessingMs := .zero
    recentBatches := 0 }

def record : Record Summary :=
  { name := "AggregatorStats"
    blank := none 0 false
    fields :=
      [.of "running" .bool fun b s => { s with running := b },
        .of "batch_count" .u64 fun n s => { s with batchCount := n },
        .of "avg_batch_size" .double fun d s => { s with avgBatchSize := d },
        .of "avg_processing_time_ms" .double fun d s => { s with avgProcessingMs := d },
        .of "max_processing_time_ms" .double fun d s => { s with maxProcessingMs := d },
        .of "current_queue_size" .size fun n s => { s with queueSize := n },
        .of "recent_batches" .size fun n s => { s with recentBatches := n }] }

def toValue (s : Summary) : Value :=
  .object [("running", .bool s.running), ("batch_count", .ofNat s.batchCount),
    ("avg_batch_size", .ofDouble s.avgBatchSize),
    ("avg_processing_time_ms", .ofDouble s.avgProcessingMs),
    ("max_processing_time_ms", .ofDouble s.maxProcessingMs),
    ("current_queue_size", .ofNat s.queueSize), ("recent_batches", .ofNat s.recentBatches)]

end Summary

/-- The most recent batches, oldest first, and the number of ids issued so far. -/
structure Ring where
  capacity : Nat
  recent : List Stats
  issued : Nat

namespace Ring

/-- No batch yet; at least one is retained. -/
def ofCapacity (capacity : Nat) : Ring := ⟨Max.max capacity 1, [], 0⟩

def idOf (number : Nat) : String := "batch_" ++ toString number

def nextId (r : Ring) : String × Ring := (idOf (r.issued + 1), { r with issued := r.issued + 1 })

/-- Retains one more batch; at capacity the oldest goes. -/
def record (r : Ring) (s : Stats) : Ring :=
  { r with recent := (if r.recent.length = r.capacity then r.recent.drop 1 else r.recent) ++ [s] }

/-- The summary of the retained batches; the number of batches is a 64-bit word. -/
def summary (r : Ring) (queueSize : Nat) (running : Bool) : Summary :=
  let recent := r.recent.length
  if recent = 0 then .none queueSize running
  else
    { running, queueSize
      batchCount := r.issued % Nat.pow 2 64
      avgBatchSize := (Double.ofNat ((r.recent.map Stats.events).foldl (· + ·) 0)).div (.ofNat recent)
      avgProcessingMs := (Metrics.Summary.total (r.recent.map Stats.processingMs)).div (.ofNat recent)
      maxProcessingMs := (r.recent.map Stats.processingMs).foldl Double.max .zero
      recentBatches := recent }

end Ring

end Ingress.Batch
