import WorkQueue.Cron.Fault
import WorkQueue.Message.Owner

/-! # Errors

What can go wrong, by cause, with the text that is shown for each cause. A `StoreError` is
reported by a store; a `QueueError` by everything built on it.
-/

namespace WorkQueue

/-- Why a stored row cannot be read back. -/
inductive Unreadable where
  | status (word : String)
  | timestamp (raw : String)
  | id (raw : String)
  | headers (raw : String)
  | described (text : String)
  deriving Repr, DecidableEq

def Unreadable.text : Unreadable → String
  | .status word => "unknown message status '" ++ word ++ "'"
  | .timestamp raw => "bad timestamp '" ++ raw ++ "'"
  | .id raw => "bad message id '" ++ raw ++ "'"
  | .headers raw => "bad headers '" ++ raw ++ "'"
  | .described text => text

/-- Why a store does not answer. -/
inductive Outage where
  /-- A call was made to fail. -/
  | injected (call : String)
  /-- The tables do not take or give what a call needs. -/
  | table (detail : String)
  | described (text : String)
  deriving Repr, DecidableEq

def Outage.text : Outage → String
  | .injected call => "injected " ++ call
  | .table detail => "sqlite: " ++ detail
  | .described text => text

/-- Failures of a store. The first three are expected when several callers work on it. -/
inductive StoreError where
  /-- The job or the slot, whose text is given, is taken. -/
  | duplicateKey (key : String)
  | notOwned (id : MessageId)
  | notFound (id : MessageId)
  | unavailable (why : Outage)
  | unreadable (why : Unreadable)
  deriving Repr, DecidableEq

namespace StoreError

def text : StoreError → String
  | .duplicateKey key => "duplicate key: " ++ key
  | .notOwned id => "message " ++ id.text ++ " is not owned by the caller"
  | .notFound id => "message " ++ id.text ++ " not found"
  | .unavailable why => "storage unavailable: " ++ why.text
  | .unreadable why => "serialization error: " ++ why.text

/-- Lease conflicts and taken slots, which callers answer by giving up and not by retrying. -/
def isConflict : StoreError → Bool
  | .duplicateKey _ | .notOwned _ | .notFound _ => true
  | .unavailable _ | .unreadable _ => false

end StoreError

/-- Why a configuration or a definition is refused. -/
inductive ConfigFault where
  | noWorkers
  | noRetries
  | slowHeartbeat (interval timeout : UInt64)
  | noEventBuffer
  | unnamedJob
  | schedulerStarted
  | described (text : String)
  deriving Repr, DecidableEq

def ConfigFault.text : ConfigFault → String
  | .noWorkers => "workerCount must be at least 1"
  | .noRetries => "maxRetries must be at least 1"
  | .slowHeartbeat interval timeout =>
    "heartbeatIntervalMs (" ++ Numeral.text interval.toNat
      ++ ") must be below heartbeatTimeoutMs (" ++ Numeral.text timeout.toNat ++ ")"
  | .noEventBuffer => "eventBufferSize must be at least 1"
  | .unnamedJob => "job name must not be empty"
  | .schedulerStarted => "job scheduler already started"
  | .described text => text

/-- Failures of the parts that work on a store. -/
inductive QueueError where
  | invalidCron (expression : String) (fault : Cron.Fault)
  | config (fault : ConfigFault)
  /-- The lease is held by another worker, or by nobody. -/
  | notOwned (id : MessageId)
  | store (error : StoreError)
  /-- The age at which leases expire is longer than a span can be. -/
  | thresholdRange
  | poolStarted
  | other (text : String)
  /-- A result does not fit into its type; nothing catches this. -/
  | overflow
  deriving Repr, DecidableEq

def QueueError.text : QueueError → String
  | .invalidCron expression fault =>
    "invalid cron expression '" ++ expression ++ "': " ++ fault.text
  | .config fault => "configuration error: " ++ fault.text
  | .notOwned id => "message " ++ id.text ++ " is not owned by this worker"
  | .store error => error.text
  | .thresholdRange =>
    "expiration threshold out of range: Source duration value is out of range for the target type"
  | .poolStarted => "worker pool already started"
  | .other text => text
  | .overflow => "arithmetic overflow"

end WorkQueue
