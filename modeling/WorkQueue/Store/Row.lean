import WorkQueue.Job.Record
import WorkQueue.Error
import WorkQueue.Json.Reader
import WorkQueue.Json.Writer
import WorkQueue.Store.Cell

/-! # Rows

Messages and jobs as rows of text columns and cells. Times are written with six digits of
fraction, so rows are compared as text. A row that was changed from outside may not read back.
-/

namespace WorkQueue

/-- The text of an instant in a column. -/
def Instant.column (t : Instant) : String := t.text .micros

/-- Read a column that holds an instant. -/
def Instant.ofColumn (raw : String) : Except StoreError Instant :=
  match readStrict? raw.toList with
  | some t => .ok t
  | none => .error (.unreadable (.timestamp raw))

def Instant.ofColumn? : Option String → Except StoreError (Option Instant)
  | none => .ok none
  | some raw => (ofColumn raw).map some

/-- The text of headers in a column. -/
def Headers.column (h : Headers) : String := h.toJson.render

def Headers.ofColumn (raw : String) : Except StoreError Headers :=
  match (Json.parse? raw).bind Headers.ofJson? with
  | some h => .ok h
  | none => .error (.unreadable (.headers raw))

def Status.ofColumn (raw : String) : Except StoreError Status :=
  match ofText? raw with
  | some s => .ok s
  | none => .error (.unreadable (.status raw))

structure MessageRow where
  seq : Nat
  id : String
  status : String
  route : Option String
  priority : Cell
  visibleAfter : Option String
  expiresAt : Option String
  ownerToken : Option String
  lastHeartbeat : Option String
  retryCount : Cell
  requeued : Cell
  jobName : Option String
  jobSlot : Option String
  enqueuedAt : String
  headers : String
  payload : Cell
  deriving Repr, DecidableEq

namespace MessageRow

def ofMessage (m : Message) : MessageRow where
  seq := m.sequence
  id := m.id.text
  status := m.status.text
  route := m.route
  priority := match m.priority with
    | none => .null
    | some p => .integer p.toInt
  visibleAfter := m.visibleAfter.map Instant.column
  expiresAt := m.expiresAt.map Instant.column
  ownerToken := m.ownerToken.map (·.token)
  lastHeartbeat := m.lastHeartbeat.map Instant.column
  retryCount := .integer m.retryCount
  requeued := .integer (if m.requeued then 1 else 0)
  jobName := m.job.map (·.name)
  jobSlot := m.job.map (·.slot.column)
  enqueuedAt := m.enqueuedAt.column
  headers := m.headers.column
  payload := .blob m.payload

/-- The cells of a row as values of the types that they should have. -/
structure Cells where
  priority : Option Int32
  retryCount : Int
  requeued : Bool
  payload : Bytes
  deriving Repr, DecidableEq

/-- A cell holds a value of another type than its column is read as. -/
def mistyped (column : String) : StoreError :=
  .unavailable (.table ("invalid type in column " ++ column))

/-- A flag, any word of 32 bits but zero being true. -/
def flag? (c : Cell) : Option Bool :=
  (c.intWithin? (-2147483648) 2147483647).map (· ≠ 0)

def cells (r : MessageRow) : Except StoreError Cells := do
  let priority ← match r.priority with
    | .null => .ok none
    | c =>
      match c.intWithin? (-2147483648) 2147483647 with
      | some n => .ok (some (Int32.ofInt n))
      | none => .error (mistyped "priority")
  let retryCount ← match r.retryCount with
    | .integer n => .ok n
    | _ => .error (mistyped "retry_count")
  let requeued ← match flag? r.requeued with
    | some b => .ok b
    | none => .error (mistyped "requeued")
  let payload ← match r.payload with
    | .blob b => .ok b
    | _ => .error (mistyped "payload")
  .ok { priority, retryCount, requeued, payload }

/-- The job slot of a row; half of one is none. -/
def jobKey (r : MessageRow) : Except StoreError (Option JobSlotKey) :=
  match r.jobName, r.jobSlot with
  | some name, some slot => do .ok (some ⟨name, ← Instant.ofColumn slot⟩)
  | _, _ => .ok none

/-- The message of a row whose cells were read; the first column that does not read is the
error. -/
def decode (r : MessageRow) (c : Cells) : Except StoreError Message := do
  let id ← match MessageId.ofText? r.id with
    | some id => .ok id
    | none => .error (.unreadable (.id r.id))
  let job ← r.jobKey
  let headers ← Headers.ofColumn r.headers
  let status ← Status.ofColumn r.status
  let visibleAfter ← Instant.ofColumn? r.visibleAfter
  let expiresAt ← Instant.ofColumn? r.expiresAt
  let lastHeartbeat ← Instant.ofColumn? r.lastHeartbeat
  let enqueuedAt ← Instant.ofColumn r.enqueuedAt
  .ok {
    id, job, headers, status, visibleAfter, expiresAt, lastHeartbeat, enqueuedAt
    payload := c.payload
    route := r.route
    priority := c.priority
    ownerToken := r.ownerToken.map (⟨·⟩)
    retryCount := c.retryCount.toNat % UInt32.size
    requeued := c.requeued
    sequence := r.seq }

def toMessage (r : MessageRow) : Except StoreError Message := do
  r.decode (← r.cells)

/-- The row may be claimed at the time whose column text is `now`. -/
def isClaimable (r : MessageRow) (now : String) (routes : List String) : Bool :=
  r.status = "waiting"
    && r.visibleAfter.all (fun t => decide (t ≤ now))
    && r.expiresAt.all (fun t => decide (now < t))
    && r.route.all (fun x => routes.contains x)

/-- The priority that counts for the claim order. -/
def rank (r : MessageRow) : Cell :=
  match r.priority with
  | .null => .integer 0
  | c => c

/-- Comes first in the claim order. -/
def claimedBefore (a b : MessageRow) : Bool :=
  b.rank.before a.rank || (!a.rank.before b.rank && a.seq < b.seq)

/-- The lease was not renewed since the time whose column text is `threshold`. -/
def leaseExpired (r : MessageRow) (threshold : String) : Bool :=
  r.status = "processing" && r.lastHeartbeat.all (fun t => decide (t < threshold))

def isPurgeable (r : MessageRow) (now : String) : Bool :=
  r.status = "waiting" && r.expiresAt.any (fun t => decide (t ≤ now))

def isOwnedBy (r : MessageRow) (owner : Owner) : Bool :=
  r.status = "processing" && r.ownerToken = some owner.token

/-- The row still has the lease that a scan saw. -/
def leaseUnchanged (r : MessageRow) (scanned : Message) : Bool :=
  r.status = "processing" && r.ownerToken = scanned.ownerToken.map (·.token)
    && r.lastHeartbeat = scanned.lastHeartbeat.map Instant.column

/-- Key in the index that keeps a slot unique among rows that are not in error. -/
def slotKey? (r : MessageRow) : Option (String × String) :=
  match r.jobName, r.jobSlot with
  | some name, some slot => if r.status = "error" then none else some (name, slot)
  | _, _ => none

/-- Key in the index that keeps a job unique among unconsumed rows. -/
def unconsumedKey? (r : MessageRow) : Option String :=
  if r.status = "waiting" ∨ r.status = "processing" then r.jobName else none

/-- Two rows that may not stand in one table. -/
def clashes (a b : MessageRow) : Bool :=
  a.id = b.id || (a.slotKey?.isSome && a.slotKey? = b.slotKey?)
    || (a.unconsumedKey?.isSome && a.unconsumedKey? = b.unconsumedKey?)

/-- Put text, or nothing, into a column; none when the column does not take it. -/
def edit? (r : MessageRow) (column : String) (value : Option String) : Option MessageRow :=
  let cell := (value.map Cell.ofText).getD .null
  match column with
  | "id" => value.map fun v => { r with id := v }
  | "status" => value.map fun v => { r with status := v }
  | "route" => some { r with route := value }
  | "priority" => some { r with priority := cell }
  | "visible_after" => some { r with visibleAfter := value }
  | "expires_at" => some { r with expiresAt := value }
  | "owner_token" => some { r with ownerToken := value }
  | "last_heartbeat" => some { r with lastHeartbeat := value }
  | "retry_count" => if value.isSome then some { r with retryCount := cell } else none
  | "requeued" => if value.isSome then some { r with requeued := cell } else none
  | "job_name" => some { r with jobName := value }
  | "job_slot" => some { r with jobSlot := value }
  | "enqueued_at" => value.map fun v => { r with enqueuedAt := v }
  | "headers" => value.map fun v => { r with headers := v }
  | "payload" => value.map fun v => { r with payload := .text v }
  | _ => none

end MessageRow

structure JobRow where
  name : Option String
  cron : String
  lastFiredSlot : Option String
  windowMs : Cell
  windowPending : Cell
  armedAt : String
  removed : Cell
  deriving Repr, DecidableEq

/-- The whole milliseconds of a window, wrapped to a word of 64 bits with a sign. -/
def Duration.column (d : Duration) : Int :=
  Int.bmod d.toMillis UInt64.size

/-- A window of milliseconds; a negative number is an empty one. -/
def Duration.ofColumn (ms : Int) : Duration :=
  .ofMillis (UInt64.ofNat ms.toNat)

namespace JobRow

def ofRecord (j : JobRecord) : JobRow where
  name := some j.name
  cron := j.cron
  lastFiredSlot := j.lastFiredSlot.map Instant.column
  windowMs := match j.window with
    | none => .null
    | some d => .integer d.column
  windowPending := .integer (if j.windowPending then 1 else 0)
  armedAt := j.armedAt.column
  removed := .integer (if j.removed then 1 else 0)

/-- The cells of a job row as values of the types that they should have. -/
structure Cells where
  name : String
  windowMs : Option Int
  windowPending : Bool
  removed : Bool
  deriving Repr, DecidableEq

def cells (r : JobRow) : Except StoreError Cells := do
  let name ← match r.name with
    | some name => .ok name
    | none => .error (MessageRow.mistyped "name")
  let windowMs ← match r.windowMs with
    | .null => .ok none
    | .integer n => .ok (some n)
    | _ => .error (MessageRow.mistyped "enqueue_window_ms")
  let windowPending ← match MessageRow.flag? r.windowPending with
    | some b => .ok b
    | none => .error (MessageRow.mistyped "window_pending")
  let removed ← match MessageRow.flag? r.removed with
    | some b => .ok b
    | none => .error (MessageRow.mistyped "removed")
  .ok { name, windowMs, windowPending, removed }

def decode (r : JobRow) (c : Cells) : Except StoreError JobRecord := do
  let lastFiredSlot ← Instant.ofColumn? r.lastFiredSlot
  let armedAt ← Instant.ofColumn r.armedAt
  .ok {
    name := c.name
    cron := r.cron
    lastFiredSlot
    window := c.windowMs.map Duration.ofColumn
    windowPending := c.windowPending
    armedAt
    removed := c.removed }

/-- Put text, or nothing, into a column; none when the column does not take it. -/
def edit? (r : JobRow) (column : String) (value : Option String) : Option JobRow :=
  let cell := (value.map Cell.ofText).getD .null
  match column with
  | "name" => some { r with name := value }
  | "cron_expression" => value.map fun v => { r with cron := v }
  | "last_fired_slot" => some { r with lastFiredSlot := value }
  | "enqueue_window_ms" => some { r with windowMs := cell }
  | "window_pending" => if value.isSome then some { r with windowPending := cell } else none
  | "armed_at" => value.map fun v => { r with armedAt := v }
  | "removed" => if value.isSome then some { r with removed := cell } else none
  | _ => none

end JobRow

end WorkQueue
