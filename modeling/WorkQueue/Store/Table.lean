import WorkQueue.Store.Call
import WorkQueue.Store.Row

/-! # The store in tables

Messages and jobs are rows, and conditions are evaluated on the text of the columns. A claim
changes its row before the row is read back. A table that was dropped answers no call.
-/

namespace WorkQueue

structure Table where
  /-- The rows of the messages in the order of their sequence numbers. -/
  messages : Option (List MessageRow)
  /-- The rows of the jobs in the order of their insertion. -/
  jobs : Option (List JobRow)
  /-- The last sequence number given out. -/
  lastSeq : Nat
  deriving Repr, DecidableEq

namespace Table

def empty : Table := ⟨some [], some [], 0⟩

instance : Inhabited Table := ⟨empty⟩

/-- A table that is not there. -/
def missing (name : String) : StoreError :=
  .unavailable (.table ("no such table: " ++ name))

/-- The rows of the messages, where there are any. -/
def rows (t : Table) : Except StoreError (List MessageRow) :=
  match t.messages with
  | some rows => .ok rows
  | none => .error (missing "messages")

def jobRows (t : Table) : Except StoreError (List JobRow) :=
  match t.jobs with
  | some rows => .ok rows
  | none => .error (missing "jobs")

/-- Answer with the table as it was when a step fails. -/
def guarded {α : Type} (t : Table) (r : Except StoreError (Except StoreError α × Table)) :
    Except StoreError α × Table :=
  match r with
  | .ok a => a
  | .error e => (.error e, t)

/-- Change the rows that satisfy a condition. -/
def update (rows : List MessageRow) (p : MessageRow → Bool) (f : MessageRow → MessageRow) :
    List MessageRow :=
  rows.map fun r => if p r then f r else r

def load? (rows : List MessageRow) (id : MessageId) : Except StoreError (Option Message) :=
  match rows.find? (·.id = id.text) with
  | none => .ok none
  | some r => r.toMessage.map some

/-- The row that comes first in the claim order. -/
def best? : List MessageRow → Option MessageRow
  | [] => none
  | r :: rs =>
    match best? rs with
    | none => some r
    | some b => if b.claimedBefore r then some b else some r

/-- The error for a row that a unique index refuses. -/
def taken (job : Option JobSlotKey) (id : MessageId) : StoreError :=
  .duplicateKey (match job with
    | some key => key.text
    | none => id.text)

def insert (t : Table) (m : NewMessage) (id : MessageId) (stamp : Instant) :
    Except StoreError MessageId × Table :=
  t.guarded do
    let rows ← t.rows
    let row := MessageRow.ofMessage (m.toMessage id (t.lastSeq + 1) stamp)
    if rows.any (·.clashes row) then .error (taken m.job id)
    else .ok (.ok id, { t with messages := some (rows ++ [row]), lastSeq := t.lastSeq + 1 })

/-- The row is leased and kept so even if it does not read back. Only a cell of a wrong type
undoes the lease. -/
def claim (t : Table) (routes : List String) (owner : Owner) (now : Instant) :
    Except StoreError (Option Message) × Table :=
  t.guarded do
    let rows ← t.rows
    match best? (rows.filter (·.isClaimable now.column routes)) with
    | none => .ok (.ok none, t)
    | some r =>
      let lease (r : MessageRow) : MessageRow :=
        { r with
          status := "processing"
          ownerToken := some owner.token
          lastHeartbeat := some now.column }
      let cells ← (lease r).cells
      .ok (((lease r).decode cells).map some,
        { t with messages := some (update rows (·.id = r.id) lease) })

/-- Why a lease was not renewed. -/
def conflict (rows : List MessageRow) (id : MessageId) : StoreError :=
  match load? rows id with
  | .ok (some m) => if m.status = .processing then .notOwned id else .notFound id
  | .ok none => .notFound id
  | .error e => e

def heartbeat (t : Table) (id : MessageId) (owner : Owner) (now : Instant) :
    Except StoreError Unit × Table :=
  t.guarded do
    let rows ← t.rows
    let p (r : MessageRow) : Bool := r.id = id.text && r.isOwnedBy owner
    if rows.any p then
      .ok (.ok (), { t with
        messages := some (update rows p fun r => { r with lastHeartbeat := some now.column }) })
    else .error (conflict rows id)

def complete (t : Table) (id : MessageId) (owner : Owner) : Except StoreError Unit × Table :=
  t.guarded do
    let rows ← t.rows
    let p (r : MessageRow) : Bool := r.id = id.text && r.isOwnedBy owner
    if rows.any p then
      .ok (.ok (), { t with
        messages := some (update rows p fun r =>
          { r with status := "complete", ownerToken := none, lastHeartbeat := none }) })
    else
      match ← load? rows id with
      | none => .error (.notFound id)
      | some m => if m.status = .complete then .ok (.ok (), t) else .error (.notOwned id)

/-- Write the columns that a move changes into the row of a message, if it satisfies a
condition and no unique index refuses it. -/
def write (t : Table) (rows : List MessageRow) (m : Message) (p : MessageRow → Bool) :
    Except StoreError (Bool × Table) :=
  match rows.find? fun r => r.id = m.id.text && p r with
  | none => .ok (false, t)
  | some r =>
    let row := { r with
      status := m.status.text
      ownerToken := m.ownerToken.map (·.token)
      lastHeartbeat := m.lastHeartbeat.map Instant.column
      retryCount := .integer m.retryCount
      requeued := .integer (if m.requeued then 1 else 0)
      headers := m.headers.column }
    if (rows.filter (·.id ≠ r.id)).any (·.clashes row) then .error (taken m.job m.id)
    else .ok (true, { t with messages := some (update rows (·.id = r.id) fun _ => row) })

def fail (t : Table) (id : MessageId) (owner : Owner) (reason : String) :
    Except StoreError Unit × Table :=
  t.guarded do
    let rows ← t.rows
    match ← load? rows id with
    | none => .error (.notFound id)
    | some m =>
      if m.status ≠ .processing || !m.isOwnedBy owner then .error (.notOwned id)
      else
        let (written, t) ← t.write rows (m.failed reason) (·.isOwnedBy owner)
        if written then .ok (.ok (), t) else .error (.notOwned id)

def scan (t : Table) (threshold : Instant) : Except StoreError (List Message) := do
  let rows ← t.rows
  let found := rows.filter (·.leaseExpired threshold.column)
  let cells ← found.mapM (·.cells)
  (found.zip cells).mapM fun (r, c) => r.decode c

/-- Write back a scanned message after a move, if its row still has the scanned lease. -/
def recover (t : Table) (scanned moved : Message) : Except StoreError Bool × Table :=
  t.guarded do
    let rows ← t.rows
    let (written, t) ← t.write rows moved (·.leaseUnchanged scanned)
    .ok (.ok written, t)

def requeue (t : Table) (id : MessageId) : Except StoreError Bool × Table :=
  t.guarded do
    let rows ← t.rows
    match (← load? rows id).bind Message.requeue? with
    | none => .ok (.ok false, t)
    | some m =>
      match t.write rows m fun r => r.status = "error" && r.requeued = .integer 0 with
      | .ok (written, t) => .ok (.ok written, t)
      | .error (.duplicateKey _) => .ok (.ok false, t)
      | .error e => .error e

def purge (t : Table) (now : Instant) : Except StoreError Nat × Table :=
  t.guarded do
    let rows ← t.rows
    let kept := rows.filter (!·.isPurgeable now.column)
    .ok (.ok (rows.length - kept.length), { t with messages := some kept })

/-- Insert a job row, or replace the row with its name at its place. -/
def putJob (row : JobRow) : List JobRow → List JobRow
  | [] => [row]
  | r :: rs => if r.name = row.name then row :: rs else r :: putJob row rs

def saveJob (t : Table) (job : JobRecord) : Except StoreError Unit × Table :=
  t.guarded do
    let rows ← t.jobRows
    .ok (.ok (), { t with jobs := some (putJob (.ofRecord job) rows) })

/-- Insert a row into rows that are in the order of their names. -/
def placeByName (row : JobRow) : List JobRow → List JobRow
  | [] => [row]
  | r :: rs =>
    let first := match row.name, r.name with
      | some a, some b => decide (a < b)
      | none, some _ => true
      | _, none => false
    if first then row :: r :: rs else r :: placeByName row rs

def loadJobs (t : Table) : Except StoreError (List JobRecord) := do
  let rows := (← t.jobRows).foldl (fun sorted r => placeByName r sorted) []
  let cells ← rows.mapM (·.cells)
  (rows.zip cells).mapM fun (r, c) => r.decode c

def removeJob (t : Table) (name : String) : Except StoreError Bool × Table :=
  t.guarded do
    let rows ← t.jobRows
    let p (r : JobRow) : Bool := r.name = some name && r.removed = .integer 0
    .ok (.ok (rows.any p), { t with
      jobs := some (rows.map fun r => if p r then { r with removed := .integer 1 } else r) })

def recordFired (t : Table) (name : String) (slot : Instant) : Except StoreError Unit × Table :=
  t.guarded do
    let rows ← t.jobRows
    .ok (.ok (), { t with
      jobs := some (rows.map fun r =>
        if r.name = some name then
          { r with lastFiredSlot := some slot.column, windowPending := .integer 0 }
        else r) })

/-- Answer a call. -/
def answer (t : Table) : (c : Call) → c.Reply × Table
  | .insert m id stamp => t.insert m id stamp
  | .claim routes owner now => t.claim routes owner now
  | .heartbeat id owner now => t.heartbeat id owner now
  | .complete id owner => t.complete id owner
  | .fail id owner reason => t.fail id owner reason
  | .scan threshold => (t.scan threshold, t)
  | .reset scanned => t.recover scanned scanned.reclaimed
  | .poison scanned reason => t.recover scanned (scanned.poisoned reason)
  | .requeue id => t.requeue id
  | .purge now => t.purge now
  | .get id => (t.rows.bind (load? · id), t)
  | .countForJob name => (t.rows.map (·.countP fun r => r.jobName = some name), t)
  | .saveJob job => t.saveJob job
  | .loadJobs => (t.loadJobs, t)
  | .removeJob name => t.removeJob name
  | .recordFired name slot => t.recordFired name slot

/-- Open the tables again: a dropped one comes back empty. -/
def reopen (t : Table) : Table where
  messages := some (t.messages.getD [])
  jobs := some (t.jobs.getD [])
  lastSeq := if t.messages.isSome then t.lastSeq else 0

def dropMessages (t : Table) : Table := { t with messages := none }
def dropJobs (t : Table) : Table := { t with jobs := none }

/-- Change a column of a message from outside; the number of rows changed. -/
def editMessage (t : Table) (id column : String) (value : Option String) :
    Except StoreError Nat × Table :=
  t.guarded do
    let rows ← t.rows
    match rows.find? (·.id = id) with
    | none => .ok (.ok 0, t)
    | some r =>
      match r.edit? column value with
      | none => .error (.unavailable (.table ("constraint failed: " ++ column)))
      | some row =>
        if (rows.filter (·.id ≠ id)).any (·.clashes row) then
          .error (.unavailable (.table "constraint failed"))
        else .ok (.ok 1, { t with messages := some (update rows (·.id = id) fun _ => row) })

/-- Change a column of a job from outside; the number of rows changed. -/
def editJob (t : Table) (name column : String) (value : Option String) :
    Except StoreError Nat × Table :=
  t.guarded do
    let rows ← t.jobRows
    match rows.find? (·.name = some name) with
    | none => .ok (.ok 0, t)
    | some r =>
      match r.edit? column value with
      | none => .error (.unavailable (.table ("constraint failed: " ++ column)))
      | some row =>
        .ok (.ok 1, { t with
          jobs := some (rows.map fun r => if r.name = some name then row else r) })

end Table

end WorkQueue
