import WorkQueue.Lease.Coordinator
import WorkQueue.Lease.Registry

/-! # Heartbeat monitor

Renews the leases of a process, takes back leases that expired anywhere, and purges expired
messages. Each duty is a procedure, so passes of several monitors can be interleaved.
-/

namespace WorkQueue

structure MonitorConfig where
  renewInterval : Duration
  /-- The age after which a lease counts as expired. -/
  threshold : Duration
  scanInterval : Duration
  purgeInterval : Duration
  /-- The number of expiries at which a message is given up. -/
  maxRetries : UInt32
  deriving Repr, DecidableEq

/-- The outcome of a recovery pass. -/
structure RecoveryReport where
  reset : Nat := 0
  poisoned : Nat := 0
  /-- Leases that changed between the scan and the attempt. -/
  skipped : Nat := 0
  deriving Repr, DecidableEq

namespace Monitor

/-- Renew leases one by one and fire the signals of the lost ones; the number of signals
fired. A renewal that fails otherwise is left for the next pass. -/
def renewEach (now : Instant) : List Lease → Nat → Procedure Registry Nat
  | [], lost => pure lost
  | lease :: rest, lost => do
    match ← Coordinator.renew lease now with
    | .ok .lost =>
      let before ← Procedure.modify (·.cancel lease)
      renewEach now rest (if before.holds lease then lost + 1 else lost)
    | _ => renewEach now rest lost

/-- Renew every lease of the registry. -/
def renewLocal (now : Instant) : Procedure Registry Nat := do
  renewEach now (← Procedure.read).leases 0

variable {S : Type}

/-- Reset or poison scanned leases one by one; an error ends the pass. -/
def recoverEach (maxRetries : UInt32) : List Message → RecoveryReport →
    Procedure S (Except QueueError RecoveryReport)
  | [], report => pure (.ok report)
  | m :: rest, report =>
    if m.retriesFull then pure (.error .overflow)
    else if maxRetries.toNat ≤ m.retryCount + 1 then do
      match ← Procedure.ask (.poison m Message.tooManyExpiries) with
      | .error e => pure (.error (.store e))
      | .ok true => recoverEach maxRetries rest { report with poisoned := report.poisoned + 1 }
      | .ok false => recoverEach maxRetries rest { report with skipped := report.skipped + 1 }
    else do
      match ← Procedure.ask (.reset m) with
      | .error e => pure (.error (.store e))
      | .ok true => recoverEach maxRetries rest { report with reset := report.reset + 1 }
      | .ok false => recoverEach maxRetries rest { report with skipped := report.skipped + 1 }

/-- Reset or poison every lease that is older than the threshold. -/
def recover (config : MonitorConfig) (now : Instant) :
    Procedure S (Except QueueError RecoveryReport) :=
  match Span.ofDuration? config.threshold with
  | none => pure (.error .thresholdRange)
  | some threshold =>
    match now.shift? (-threshold) with
    | none => pure (.error .overflow)
    | some cutoff => do
      match ← Procedure.ask (.scan cutoff) with
      | .error e => pure (.error (.store e))
      | .ok expired => recoverEach config.maxRetries expired {}

def purge (now : Instant) : Procedure S (Except QueueError Nat) := do
  match ← Procedure.ask (.purge now) with
  | .ok n => pure (.ok n)
  | .error e => pure (.error (.store e))

def requeue (id : MessageId) : Procedure S (Except QueueError Bool) := do
  match ← Procedure.ask (.requeue id) with
  | .ok b => pure (.ok b)
  | .error e => pure (.error (.store e))

end Monitor

end WorkQueue
