import WorkQueue.Config.Basic

/-! # Configuration as JSON -/

namespace WorkQueue.Config

open Json

def toJson (c : Config) : Json :=
  .record [
    ("workerCount", .nat c.workerCount.toNat),
    ("routes", .list .text c.routes),
    ("pollIntervalMs", .nat c.pollInterval.toNat),
    ("maxPollIntervalMs", .nat c.maxPollInterval.toNat),
    ("heartbeatIntervalMs", .nat c.heartbeatInterval.toNat),
    ("heartbeatTimeoutMs", .nat c.heartbeatTimeout.toNat),
    ("recoveryScanIntervalMs", .nat c.recoveryScanInterval.toNat),
    ("maxRetries", .nat c.maxRetries.toNat),
    ("expiredPurgeIntervalMs", .nat c.expiredPurgeInterval.toNat),
    ("schedulerTickMs", .nat c.schedulerTick.toNat),
    ("eventBufferSize", .nat c.eventBufferSize.toNat),
    ("dbPath", .text c.dbPath),
    ("logLevel", .text c.logLevel),
    ("logDir", .ofOption .text c.logDir)]

/-- A setting, or its default when the key is missing or null. -/
def setting? {α : Type} (f : Json → Option α) (default : α) (key : String) (j : Json) : Option α :=
  match j.get? key with
  | none | some .null => some default
  | some v => f v

def word64? : Json → Option UInt64 := fun j => (j.natUpTo? (UInt64.size - 1)).map .ofNat
def word32? : Json → Option UInt32 := fun j => (j.natUpTo? (UInt32.size - 1)).map .ofNat

/-- Settings from an object; keys that are missing have their defaults. -/
def ofJson? (j : Json) : Option Config := do
  let d : Config := {}
  some {
    workerCount := ← setting? word64? d.workerCount "workerCount" j
    routes := ← setting? (items? text?) d.routes "routes" j
    pollInterval := ← setting? word64? d.pollInterval "pollIntervalMs" j
    maxPollInterval := ← setting? word64? d.maxPollInterval "maxPollIntervalMs" j
    heartbeatInterval := ← setting? word64? d.heartbeatInterval "heartbeatIntervalMs" j
    heartbeatTimeout := ← setting? word64? d.heartbeatTimeout "heartbeatTimeoutMs" j
    recoveryScanInterval :=
      ← setting? word64? d.recoveryScanInterval "recoveryScanIntervalMs" j
    maxRetries := ← setting? word32? d.maxRetries "maxRetries" j
    expiredPurgeInterval :=
      ← setting? word64? d.expiredPurgeInterval "expiredPurgeIntervalMs" j
    schedulerTick := ← setting? word64? d.schedulerTick "schedulerTickMs" j
    eventBufferSize := ← setting? word64? d.eventBufferSize "eventBufferSize" j
    dbPath := ← setting? text? d.dbPath "dbPath" j
    logLevel := ← setting? text? d.logLevel "logLevel" j
    logDir := ← setting? (optional? text?) d.logDir "logDir" j }

end WorkQueue.Config

namespace WorkQueue

/-- The intervals of a monitor in milliseconds. -/
def MonitorConfig.toJson (m : MonitorConfig) : Json :=
  .record [
    ("renewMs", .nat m.renewInterval.toMillis),
    ("thresholdMs", .nat m.threshold.toMillis),
    ("scanMs", .nat m.scanInterval.toMillis),
    ("purgeMs", .nat m.purgeInterval.toMillis),
    ("maxRetries", .nat m.maxRetries.toNat)]

def RecoveryReport.toJson (r : RecoveryReport) : Json :=
  .record [("reset", .nat r.reset), ("poisoned", .nat r.poisoned), ("skipped", .nat r.skipped)]

end WorkQueue
