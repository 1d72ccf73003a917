import WorkQueue.Job.Event

/-! # Event subscription

A subscriber reads the events that were sent since its last reading. When there are more than
the buffer holds, the oldest are lost and their number is told.
-/

namespace WorkQueue

structure Subscription where
  /-- How many events the buffer holds. -/
  capacity : Nat
  /-- The events sent and not yet read, oldest first. -/
  pending : List Event
  deriving Repr, DecidableEq

namespace Subscription

/-- A buffer for at least one and at least `size` events, rounded up to a power of two. -/
def ofSize (size : Nat) : Subscription :=
  ⟨(max size 1).nextPowerOfTwo, []⟩

def send (s : Subscription) (e : Event) : Subscription :=
  { s with pending := s.pending ++ [e] }

/-- The number of events lost and the events kept. -/
def receive (s : Subscription) : Nat × List Event :=
  let lost := s.pending.length - s.capacity
  (lost, s.pending.drop lost)

/-- All events read. -/
def drained (s : Subscription) : Subscription := { s with pending := [] }

end Subscription

end WorkQueue
