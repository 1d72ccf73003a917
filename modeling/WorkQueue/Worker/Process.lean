import WorkQueue.Lease.Coordinator
import WorkQueue.Lease.Registry

/-! # Processing a message

A worker registers the lease of a message it claimed, runs the handler until the handler ends
or the signal of the lease fires, releases the lease, and settles it if the handler ended.
-/

namespace WorkQueue

/-- How the handling of a message ended. -/
inductive Outcome where
  | succeeded
  | failed (reason : String)
  /-- The signal of the lease fired first. -/
  | abandoned
  deriving Repr, DecidableEq

namespace Worker

/-- Register a lease; the value is the number of its signal. -/
def register (lease : Lease) : Procedure Registry Nat := do
  pure (← Procedure.modify (·.register lease)).signals

/-- Release a lease and settle it by the outcome; an abandoned message is left alone. -/
def finish (lease : Lease) (outcome : Outcome) : Procedure Registry (Except QueueError Unit) := do
  let _ ← Procedure.modify (·.release lease)
  match outcome with
  | .succeeded => Coordinator.commit lease
  | .failed reason => Coordinator.fail lease reason
  | .abandoned => pure (.ok ())

end Worker

end WorkQueue
