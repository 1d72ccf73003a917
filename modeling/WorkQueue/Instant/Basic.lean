import WorkQueue.Calendar
import WorkQueue.Instant.Span

/-! # Instants

A point of UTC with nanoseconds. A leap second is the last second of a minute with a
billion nanoseconds or more; it comes after that second and before the next one.
-/

namespace WorkQueue

/-- The seconds since 1970 and the nanoseconds that an instant may have. A leap second follows the
last second of a minute only. Chrono's `with_nanosecond` lets it follow any other second too, which
no RFC 3339 text denotes; such values are left out. -/
def Instant.Valid (seconds : Int) (nanos : Nat) : Prop :=
  -8334601228800 ≤ seconds ∧ seconds ≤ 8210266876799 ∧ nanos < 2 * nanosPerSecond
    ∧ (nanosPerSecond ≤ nanos → seconds % 60 = 59)

instance (s : Int) (n : Nat) : Decidable (Instant.Valid s n) := by
  unfold Instant.Valid
  infer_instance

structure Instant where
  /-- Seconds since 1970-01-01T00:00:00Z, leap seconds not counted. -/
  seconds : Int
  nanos : Nat
  valid : Instant.Valid seconds nanos
  deriving Repr, DecidableEq

namespace Instant

def make? (seconds : Int) (nanos : Nat) : Option Instant :=
  if h : Valid seconds nanos then some ⟨seconds, nanos, h⟩ else none

def epoch : Instant := ⟨0, 0, by decide⟩

instance : Inhabited Instant := ⟨epoch⟩

/-- Earlier, by seconds and then by nanoseconds. -/
def Before (a b : Instant) : Prop :=
  a.seconds < b.seconds ∨ (a.seconds = b.seconds ∧ a.nanos < b.nanos)

instance : LT Instant := ⟨Before⟩
instance : LE Instant := ⟨fun a b => ¬ b < a⟩

instance (a b : Instant) : Decidable (a < b) :=
  inferInstanceAs (Decidable (_ ∨ _))

instance (a b : Instant) : Decidable (a ≤ b) :=
  inferInstanceAs (Decidable (¬ _))

/-- The later of two instants. -/
def later (a b : Instant) : Instant :=
  if a ≤ b then b else a

/-- Move an instant, where the result is in range. A move inside a leap second stays in it;
any other move counts from the second that the leap second follows or precedes. -/
def shift? (t : Instant) (d : Span) : Option Instant :=
  let wholes := d.nanos.tdiv 1000000000
  let part := d.nanos.tmod 1000000000
  let n : Int := t.nanos
  let inLeap := decide (nanosPerSecond ≤ t.nanos)
  if inLeap && wholes == 0 && (part ≤ 0 || n + part < 2000000000) then
    make? t.seconds (n + part).toNat
  else
    let (s, n) :=
      if !inLeap then (t.seconds, n)
      else if wholes < 0 then (t.seconds + 1, n - 1000000000)
      else (t.seconds, n - 1000000000)
    let n := n + part
    make? (s + wholes + n / 1000000000) (n % 1000000000).toNat

/-- The day number of an instant. -/
def day (t : Instant) : Int :=
  t.seconds / 86400

/-- The second of its day, from 0. -/
def secondOfDay (t : Instant) : Nat :=
  (t.seconds % 86400).toNat

def date (t : Instant) : Date :=
  Date.ofDayNumber t.day

/-- The instant of a date, a second of the day and nanoseconds, `offset` seconds east of UTC.
The same reading of a clock in UTC has to be an instant too. -/
def ofLocal? (d : Date) (second nanos : Nat) (offset : Int) : Option Instant :=
  if d.Exists then
    (make? (d.dayNumber * 86400 + second) nanos).bind fun t => make? (t.seconds - offset) t.nanos
  else none

end Instant

end WorkQueue
