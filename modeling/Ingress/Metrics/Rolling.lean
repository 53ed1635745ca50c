import Ingress.Table

/-!
# Rolling counts

Amounts are added up by name and by interval of time, and intervals that fall out of the span are
forgotten.

* `Rolling` : the width of an interval, the number of intervals kept, and the intervals, oldest
  first;
* `Rolling.ofSpan` : about sixty intervals over a span;
* `Rolling.record` : an amount at a time, which may lie before earlier ones;
* `Rolling.sumSince` : the amounts of a name in the intervals from the one of a time on.

Times are in seconds.
-/

namespace Ingress.Metrics

/-- The amounts of one interval. -/
structure Bucket where
  index : Int
  counts : Table String Nat

/-- Amounts by interval, oldest first. -/
structure Rolling where
  width : Nat
  kept : Int
  buckets : List Bucket

namespace Rolling

def intervals : Nat := 60

/-- The bound of the spans, a signed word; longer ones keep nothing. -/
def spanBound : Nat := Nat.pow 2 63

/-- No amount, for a span in seconds. -/
def ofSpan (span : Nat) : Rolling :=
  let span := Max.max span 1
  if span < spanBound then
    let width := Max.max (span / intervals) 1
    { width, kept := span / width + 1, buckets := [] }
  else { width := 1, kept := 0, buckets := [] }

def indexOf (r : Rolling) (seconds : Int) : Int := seconds.fdiv r.width

/-- The newest interval, counting one that is to be added. -/
def newest (buckets : List Bucket) (index : Int) : Int :=
  match buckets.getLast? with
  | some b => Max.max b.index index
  | none => index

/-- Adds an amount to the interval of an index, which is put in its place if it is new. -/
def addAt (name : String) (n : Nat) (index : Int) : List Bucket → List Bucket
  | [] => [⟨index, Table.empty.insert name n⟩]
  | b :: rest =>
    if b.index < index then b :: addAt name n index rest
    else if b.index = index then
      { b with counts := b.counts.alter name fun old => old.getD 0 + n } :: rest
    else ⟨index, Table.empty.insert name n⟩ :: b :: rest

/-- Adds an amount at a time; one that lies before the span is dropped. -/
def record (r : Rolling) (name : String) (n : Nat) (seconds : Int) : Rolling :=
  let index := r.indexOf seconds
  let newest := newest r.buckets index
  if index ≤ newest - r.kept then r
  else
    { r with
      buckets := (addAt name n index r.buckets).dropWhile fun b => b.index ≤ newest - r.kept }

/-- The amounts of a name from the interval of a time on, as a 64-bit word. -/
def sumSince (r : Rolling) (name : String) (seconds : Int) : Nat :=
  let first := r.indexOf seconds
  let recent := r.buckets.reverse.takeWhile fun b => first ≤ b.index
  (recent.map fun b => (b.counts.get? name).getD 0).foldl (· + ·) 0 % Nat.pow 2 64

def clear (r : Rolling) : Rolling := { r with buckets := [] }

end Rolling

end Ingress.Metrics
