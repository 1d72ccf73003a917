import WorkQueue.Store.Procedure

/-! # Lease coordinator

Claims, renews and settles messages for one owner. Every claim is made with a fresh token, so
a message that is claimed again is held under another lease.
-/

namespace WorkQueue

/-- The outcome of a renewal. -/
inductive Renewal where
  | renewed
  /-- The lease was taken back or taken over. -/
  | lost
  deriving Repr, DecidableEq

namespace Coordinator

variable {S : Type}

/-- Claim the next message under a token, which is a fresh lease of the owner. -/
def claim (token : Owner) (routes : List String) (now : Instant) :
    Procedure S (Except QueueError (Option Message)) := do
  match ← Procedure.ask (.claim routes token now) with
  | .ok found => pure (.ok found)
  | .error e => pure (.error (.store e))

def renew (lease : Lease) (now : Instant) : Procedure S (Except QueueError Renewal) := do
  match ← Procedure.ask (.heartbeat lease.id lease.token now) with
  | .ok () => pure (.ok .renewed)
  | .error e => pure (if e.isConflict then .ok .lost else .error (.store e))

/-- A lease that is not owned is the caller's error; other errors are the store's. -/
def settled (reply : Except StoreError Unit) : Except QueueError Unit :=
  match reply with
  | .ok () => .ok ()
  | .error (.notOwned id) => .error (.notOwned id)
  | .error e => .error (.store e)

/-- Settle a lease as done. -/
def commit (lease : Lease) : Procedure S (Except QueueError Unit) := do
  pure (settled (← Procedure.ask (.complete lease.id lease.token)))

/-- Settle a lease as failed. -/
def fail (lease : Lease) (reason : String) : Procedure S (Except QueueError Unit) := do
  pure (settled (← Procedure.ask (.fail lease.id lease.token reason)))

end Coordinator

end WorkQueue
