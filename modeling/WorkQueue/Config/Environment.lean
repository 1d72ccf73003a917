import WorkQueue.Config.Basic

/-! # Configuration from the environment

Every setting has a variable. A number that does not read falls back to its default.
-/

namespace WorkQueue.Config

/-- The value of a variable that is set. -/
abbrev Environment := String → Option String

def number (env : Environment) (name : String) (max default : Nat) : Nat :=
  ((env name).bind fun v => Numeral.readUpTo? max v.toList).getD default

def word64 (env : Environment) (name : String) (default : UInt64) : UInt64 :=
  .ofNat (number env name (UInt64.size - 1) default.toNat)

def word32 (env : Environment) (name : String) (default : UInt32) : UInt32 :=
  .ofNat (number env name (UInt32.size - 1) default.toNat)

/-- The items of a comma-separated list without the blanks around them, empty items left out. -/
def listed (value : String) : List String :=
  (((Text.pieces ',' value.toList).map Text.trim).filter (!·.isEmpty)).map String.ofList

def ofEnvironment (env : Environment) : Config :=
  let d : Config := {}
  { workerCount := word64 env "QUEUEFORGE_WORKER_COUNT" d.workerCount
    routes := ((env "QUEUEFORGE_ROUTES").map listed).getD []
    pollInterval := word64 env "QUEUEFORGE_POLL_INTERVAL_MS" d.pollInterval
    maxPollInterval := word64 env "QUEUEFORGE_MAX_POLL_INTERVAL_MS" d.maxPollInterval
    heartbeatInterval := word64 env "QUEUEFORGE_HEARTBEAT_INTERVAL_MS" d.heartbeatInterval
    heartbeatTimeout := word64 env "QUEUEFORGE_HEARTBEAT_TIMEOUT_MS" d.heartbeatTimeout
    recoveryScanInterval :=
      word64 env "QUEUEFORGE_RECOVERY_SCAN_INTERVAL_MS" d.recoveryScanInterval
    maxRetries := word32 env "QUEUEFORGE_MAX_RETRIES" d.maxRetries
    expiredPurgeInterval :=
      word64 env "QUEUEFORGE_EXPIRED_PURGE_INTERVAL_MS" d.expiredPurgeInterval
    schedulerTick := word64 env "QUEUEFORGE_SCHEDULER_TICK_MS" d.schedulerTick
    eventBufferSize := word64 env "QUEUEFORGE_EVENT_BUFFER_SIZE" d.eventBufferSize
    dbPath := (env "QUEUEFORGE_DB").getD d.dbPath
    logLevel := (env "RUST_LOG").getD d.logLevel
    logDir := env "QUEUEFORGE_LOG_DIR" }

end WorkQueue.Config
