import Ingress.Time.Calendar

/-!
# Instants

* `Instant` : seconds since 1970-01-01T00:00:00Z and nanoseconds; the nanoseconds of a leap second
  go on from a full second;
* `Instant.ofMillis` : an instant from milliseconds;
* `Instant.total` : all its nanoseconds, which order instants;
* `Instant.render` : its RFC 3339 text in UTC, with a fraction of 0, 3, 6 or 9 digits as needed.
-/

namespace Ingress

/-- A point in time; `nanos` is below two full seconds, the second of them for a leap second. -/
structure Instant where
  seconds : Int
  nanos : Nat
deriving DecidableEq, Repr

namespace Instant

def epoch : Instant := ⟨0, 0⟩

instance : Inhabited Instant := ⟨epoch⟩

def nanosPerSecond : Nat := 1000000000

/-- The instant so many milliseconds after the epoch. -/
def ofMillis (ms : Int) : Instant := ⟨ms.fdiv 1000, (ms.fmod 1000).toNat * 1000000⟩

/-- All nanoseconds since the epoch, which order instants. -/
def total (t : Instant) : Int := t.seconds * nanosPerSecond + t.nanos

/-- A number with at least `width` digits. -/
def padded (width n : Nat) : String :=
  let digits := (toString n).toList
  String.ofList (List.replicate (width - digits.length) '0' ++ digits)

/-- A year has four digits; one outside `0` to `9999` has its sign. -/
def yearText (year : Int) : String :=
  if 0 ≤ year ∧ year ≤ 9999 then padded 4 year.toNat
  else (if year < 0 then "-" else "+") ++ padded 4 year.natAbs

/-- A fraction of a second with 0, 3, 6 or 9 digits. -/
def fractionText (nanos : Nat) : String :=
  if nanos = 0 then ""
  else if nanos % 1000000 = 0 then "." ++ padded 3 (nanos / 1000000)
  else if nanos % 1000 = 0 then "." ++ padded 6 (nanos / 1000)
  else "." ++ padded 9 nanos

def render (t : Instant) : String :=
  let date := Date.ofDays (t.seconds.fdiv 86400)
  let ofDay := (t.seconds.fmod 86400).toNat
  let second := ofDay % 60 + t.nanos / nanosPerSecond
  yearText date.year ++ "-" ++ padded 2 date.month ++ "-" ++ padded 2 date.day ++ "T"
    ++ padded 2 (ofDay / 3600) ++ ":" ++ padded 2 (ofDay / 60 % 60) ++ ":" ++ padded 2 second
    ++ fractionText (t.nanos % nanosPerSecond) ++ "Z"

end Instant

end Ingress
