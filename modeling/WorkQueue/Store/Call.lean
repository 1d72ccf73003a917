import WorkQueue.Error
import WorkQueue.Job.Record

/-! # Store calls

Everything that is done to a store is one of these calls, and each call is answered at once.
A store is a state with a function that answers every call, so two stores can be compared and
callers can be interleaved call by call.
-/

namespace WorkQueue

/-- One call to a store. Identifiers and lease tokens are drawn by the caller. -/
inductive Call where
  /-- Store a message under a fresh identifier, stamped with the wall clock. -/
  | insert (message : NewMessage) (id : MessageId) (stamp : Instant)
  /-- Lease the best message that is eligible. -/
  | claim (routes : List String) (owner : Owner) (now : Instant)
  /-- Renew a lease. -/
  | heartbeat (id : MessageId) (owner : Owner) (now : Instant)
  /-- Settle a lease as done; done twice is fine. -/
  | complete (id : MessageId) (owner : Owner)
  /-- Settle a lease as failed. -/
  | fail (id : MessageId) (owner : Owner) (reason : String)
  /-- The processing messages whose lease was not renewed since `threshold`. -/
  | scan (threshold : Instant)
  /-- Take a scanned lease back, unless it changed since. -/
  | reset (scanned : Message)
  /-- Give up a message with a scanned lease, unless it changed since. -/
  | poison (scanned : Message) (reason : String)
  /-- The one way from error back to waiting. -/
  | requeue (id : MessageId)
  /-- Delete the waiting messages whose expiry has passed. -/
  | purge (now : Instant)
  | get (id : MessageId)
  /-- The number of messages of a job, in any status. -/
  | countForJob (name : String)
  /-- Insert or replace a job. -/
  | saveJob (job : JobRecord)
  /-- All jobs by name, the removed ones too. -/
  | loadJobs
  /-- Mark a job as removed. -/
  | removeJob (name : String)
  /-- Note the slot that a job fired for. -/
  | recordFired (name : String) (slot : Instant)

namespace Call

/-- What a call gives when it succeeds. -/
abbrev Value : Call → Type
  | insert .. => MessageId
  | claim .. => Option Message
  | heartbeat .. => Unit
  | complete .. => Unit
  | fail .. => Unit
  | scan .. => List Message
  | reset .. => Bool
  | poison .. => Bool
  | requeue .. => Bool
  | purge .. => Nat
  | get .. => Option Message
  | countForJob .. => Nat
  | saveJob .. => Unit
  | loadJobs => List JobRecord
  | removeJob .. => Bool
  | recordFired .. => Unit

/-- What a call is answered. -/
abbrev Reply (c : Call) : Type := Except StoreError c.Value

/-- The name under which a call can be made to fail. -/
def name : Call → String
  | insert .. => "insert"
  | claim .. => "try_claim_next"
  | heartbeat .. => "heartbeat"
  | complete .. => "complete"
  | fail .. => "fail"
  | scan .. => "scan_expired_leases"
  | reset .. => "reset_lease"
  | poison .. => "mark_error"
  | requeue .. => "requeue_error"
  | purge .. => "purge_expired"
  | get .. => "get"
  | countForJob .. => "count_for_job"
  | saveJob .. => "save_job"
  | loadJobs => "load_jobs"
  | removeJob .. => "remove_job"
  | recordFired .. => "record_job_fired"

end Call

end WorkQueue
