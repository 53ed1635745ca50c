import Ingress.Json.Decode

/-!
# Histograms

* `Histogram` : the most recent samples, oldest first, at most a capacity;
* `Histogram.observe` : one more sample, in place of the oldest once the capacity is reached;
* `Summary` : count, extremes, mean and percentiles of samples;
* `Summary.of` : the summary of samples in any order; the mean adds them in total order.
-/

namespace Ingress.Metrics

/-- The most recent samples, oldest first. -/
structure Histogram where
  capacity : Nat
  samples : List Double

namespace Histogram

def ofCapacity (capacity : Nat) : Histogram := ⟨capacity, []⟩

/-- One more sample; at capacity it takes the place of the oldest. -/
def observe (h : Histogram) (d : Double) : Histogram :=
  { h with samples := (if h.samples.length = h.capacity then h.samples.drop 1 else h.samples) ++ [d] }

end Histogram

structure Summary where
  count : Nat
  min : Double
  max : Double
  mean : Double
  p50 : Double
  p95 : Double
  p99 : Double
deriving DecidableEq

namespace Summary

def none : Summary := ⟨0, .zero, .zero, .zero, .zero, .zero, .zero⟩

/-- The rank of a percentile among `count` sorted samples. -/
def rank (count : Nat) (p : Double) : Nat :=
  Min.min ((Double.ofNat count).mul p).wholeMagnitude (count - 1)

def quotient (a b : Nat) : Double := (Double.ofNat a).div (.ofNat b)

/-- The sum in order, from negative zero, which adds nothing to any number. -/
def total (samples : List Double) : Double := samples.foldl Double.add .negZero

def ofSorted (sorted : List Double) : Summary :=
  let count := sorted.length
  let nth := fun i => sorted.getD i .zero
  { count
    min := nth 0
    max := nth (count - 1)
    mean := (total sorted).div (.ofNat count)
    p50 := nth (rank count (quotient 1 2))
    p95 := nth (rank count (quotient 95 100))
    p99 := nth (rank count (quotient 99 100)) }

/-- The summary of samples in any order. -/
def of (samples : List Double) : Summary :=
  if samples.isEmpty then none else ofSorted (samples.mergeSort Double.totalLe)

open Json

def record : Record Summary :=
  { name := "HistogramSummary"
    blank := none
    fields :=
      [.of "count" .size fun n s => { s with count := n },
        .of "min" .double fun d s => { s with min := d },
        .of "max" .double fun d s => { s with max := d },
        .of "mean" .double fun d s => { s with mean := d },
        .of "p50" .double fun d s => { s with p50 := d },
        .of "p95" .double fun d s => { s with p95 := d },
        .of "p99" .double fun d s => { s with p99 := d }] }

def toValue (s : Summary) : Value :=
  .object [("count", .ofNat s.count), ("min", .ofDouble s.min), ("max", .ofDouble s.max),
    ("mean", .ofDouble s.mean), ("p50", .ofDouble s.p50), ("p95", .ofDouble s.p95),
    ("p99", .ofDouble s.p99)]

end Summary

def Histogram.summary (h : Histogram) : Summary := .of h.samples

end Ingress.Metrics
