import WorkQueue.Lease.Monitor
import WorkQueue.Worker.Backoff

/-! # Configuration

The settings of a process, their defaults, and the rule for which settings are accepted.
-/

namespace WorkQueue

/-- Settings; times are in milliseconds. -/
structure Config where
  workerCount : UInt64 := 4
  /-- The routes that are consumed besides the messages without one. -/
  routes : List String := []
  pollInterval : UInt64 := 500
  maxPollInterval : UInt64 := 5000
  heartbeatInterval : UInt64 := 15000
  heartbeatTimeout : UInt64 := 60000
  recoveryScanInterval : UInt64 := 30000
  maxRetries : UInt32 := 5
  expiredPurgeInterval : UInt64 := 60000
  schedulerTick : UInt64 := 1000
  eventBufferSize : UInt64 := 256
  dbPath : String := "queueforge.db"
  logLevel : String := "info"
  /-- Where daily log files go; to the console only when missing. -/
  logDir : Option String := none
  deriving Repr, DecidableEq

namespace Config

/-- Check the settings; the first fault is the error. Doubling the heartbeat interval, to see
whether one missed renewal may cost the lease, overflows for intervals of half the range. -/
def validate (c : Config) : Except QueueError Unit :=
  if c.workerCount = 0 then .error (.config .noWorkers)
  else if c.maxRetries = 0 then .error (.config .noRetries)
  else if c.heartbeatTimeout ≤ c.heartbeatInterval then
    .error (.config (.slowHeartbeat c.heartbeatInterval c.heartbeatTimeout))
  else if UInt64.size ≤ c.heartbeatInterval.toNat * 2 then .error .overflow
  else if c.eventBufferSize = 0 then .error (.config .noEventBuffer)
  else .ok ()

/-- The waits of a worker; the longest is never below the first. -/
def backoff (c : Config) : BackoffPolicy where
  base := c.pollInterval
  max := Max.max c.maxPollInterval c.pollInterval
  jitter := true

def monitor (c : Config) : MonitorConfig where
  renewInterval := .ofMillis c.heartbeatInterval
  threshold := .ofMillis c.heartbeatTimeout
  scanInterval := .ofMillis c.recoveryScanInterval
  purgeInterval := .ofMillis c.expiredPurgeInterval
  maxRetries := c.maxRetries

end Config

end WorkQueue
