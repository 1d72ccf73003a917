/-! # Lengths of time

`Duration` is a length that is never negative, as a user gives it; `Span` is a signed
displacement of the clock, and it has the smaller range.
-/

namespace WorkQueue

/-- Nanoseconds in a second. -/
abbrev nanosPerSecond : Nat := 1000000000

/-- A length of time in whole seconds and nanoseconds below a second. -/
structure Duration where
  seconds : UInt64
  nanos : Nat
  nanos_lt : nanos < nanosPerSecond := by decide
  deriving Repr, DecidableEq

namespace Duration

/-- The whole length in nanoseconds. -/
def toNanos (d : Duration) : Nat :=
  nanosPerSecond * d.seconds.toNat + d.nanos

/-- The whole milliseconds of the length. -/
def toMillis (d : Duration) : Nat :=
  d.toNanos / 1000000

def ofMillis (ms : UInt64) : Duration :=
  ⟨ms / 1000, (ms % 1000).toNat * 1000000, by
    have h : (ms % 1000).toNat < 1000 := by
      rw [UInt64.toNat_mod]
      exact Nat.mod_lt _ (by decide)
    unfold nanosPerSecond
    omega⟩

/-- Seconds and nanoseconds, whole seconds among the nanoseconds carried over. -/
def carry? (seconds nanos : Nat) : Option Duration :=
  let total := seconds + nanos / nanosPerSecond
  if total < UInt64.size then
    some ⟨UInt64.ofNat total, nanos % nanosPerSecond, Nat.mod_lt _ (by decide)⟩
  else none

end Duration

/-- The longest span, as many milliseconds as a signed word of 64 bits counts. -/
abbrev maxSpanNanos : Int := 9223372036854775807 * 1000000

/-- A signed displacement in nanoseconds. -/
structure Span where
  nanos : Int
  bounded : -maxSpanNanos ≤ nanos ∧ nanos ≤ maxSpanNanos := by decide
  deriving Repr, DecidableEq

namespace Span

def ofNanos? (n : Int) : Option Span :=
  if h : -maxSpanNanos ≤ n ∧ n ≤ maxSpanNanos then some ⟨n, h⟩ else none

def ofMillis? (ms : Int) : Option Span :=
  ofNanos? (ms * 1000000)

/-- A duration as a span, where it is not too long. -/
def ofDuration? (d : Duration) : Option Span :=
  ofNanos? d.toNanos

def neg (s : Span) : Span :=
  ⟨-s.nanos, by have := s.bounded; omega⟩

instance : Neg Span := ⟨neg⟩

def second : Span := ⟨1000000000, by decide⟩
def minute : Span := ⟨60000000000, by decide⟩
def longest : Span := ⟨maxSpanNanos, by decide⟩

end Span

end WorkQueue
