import WorkQueue.Instant.Written
import WorkQueue.Message.Headers
import WorkQueue.Message.Owner
import WorkQueue.Message.Status

/-! # Messages

A message is a unit of work. The store owns the durable copy; a value of `Message` is a
snapshot of it. The functions here are the moves of its lifecycle.
-/

namespace WorkQueue

/-- The job and the slot that a scheduled message was enqueued for. -/
structure JobSlotKey where
  name : String
  slot : Instant
  deriving Repr, DecidableEq

namespace JobSlotKey

/-- The name and the slot in whole seconds. -/
def text (k : JobSlotKey) : String :=
  k.name ++ "@" ++ k.slot.text .seconds

end JobSlotKey

structure Message where
  id : MessageId
  payload : Bytes
  headers : Headers
  status : Status
  route : Option String
  priority : Option Int32
  visibleAfter : Option Instant
  expiresAt : Option Instant
  lastHeartbeat : Option Instant
  ownerToken : Option Owner
  retryCount : Nat
  /-- Set once the single requeue has been spent. -/
  requeued : Bool
  job : Option JobSlotKey
  sequence : Nat
  enqueuedAt : Instant
  deriving Repr, DecidableEq

namespace Message

/-- Header with the decimal text of the retry count. -/
def retryHeader : String := "queueforge-retry-count"

/-- Header with the reason a message moved to error. -/
def errorHeader : String := "queueforge-error"

/-- The reason recorded when lease recovery gives a message up. -/
def tooManyExpiries : String := "LeaseExpiredTooManyTimes"

/-- The message may be handed out at `now` to a worker that serves `routes`. -/
def isClaimable (m : Message) (now : Instant) (routes : List String) : Bool :=
  m.status == .waiting
    && m.visibleAfter.all (fun t => decide (t ≤ now))
    && m.expiresAt.all (fun t => decide (now < t))
    && m.route.all (fun r => routes.contains r)

/-- The priority that counts for the claim order. -/
def rank (m : Message) : Int :=
  (m.priority.map Int32.toInt).getD 0

/-- Comes first in the claim order: the higher priority, then the earlier insertion. -/
def claimedBefore (a b : Message) : Bool :=
  b.rank < a.rank || (a.rank = b.rank && a.sequence < b.sequence)

/-- The lease that a snapshot was claimed under. -/
def lease? (m : Message) : Option Lease :=
  match m.status with
  | .processing => m.ownerToken.map fun token => ⟨m.id, token⟩
  | _ => none

/-- The message keeps `key` from being enqueued: any unconsumed message of the job does, and a
completed one of the same slot. -/
def blocks (m : Message) (key : JobSlotKey) : Bool :=
  match m.job with
  | none => false
  | some own =>
    own.name == key.name &&
      match m.status with
      | .waiting | .processing => true
      | .complete => own.slot == key.slot
      | .error => false

def isOwnedBy (m : Message) (owner : Owner) : Bool :=
  m.ownerToken == some owner

/-- The lease was not renewed since `threshold`. -/
def leaseExpired (m : Message) (threshold : Instant) : Bool :=
  m.status == .processing && m.lastHeartbeat.all (fun t => decide (t < threshold))

/-- The message is waiting and its expiry has passed. -/
def isPurgeable (m : Message) (now : Instant) : Bool :=
  m.status == .waiting && m.expiresAt.any (fun t => decide (t ≤ now))

/-- The lease of a stored message is still the one that a scan saw. -/
def leaseUnchanged (m scanned : Message) : Bool :=
  m.status == .processing && m.ownerToken == scanned.ownerToken
    && m.lastHeartbeat == scanned.lastHeartbeat

def errorReason? (m : Message) : Option String :=
  m.headers.getText? errorHeader

def beginLease (m : Message) (owner : Owner) (now : Instant) : Message :=
  { m with status := .processing, ownerToken := some owner, lastHeartbeat := some now }

def renew (m : Message) (now : Instant) : Message :=
  { m with lastHeartbeat := some now }

def completed (m : Message) : Message :=
  { m with status := .complete, ownerToken := none, lastHeartbeat := none }

def failed (m : Message) (reason : String) : Message :=
  { m with
    status := .error
    ownerToken := none
    lastHeartbeat := none
    headers := m.headers.setText errorHeader reason }

/-- The count after one more retry, in a word of 32 bits. -/
def nextRetry (m : Message) : Nat :=
  (m.retryCount + 1) % UInt32.size

/-- Count one more retry, in the field and in its header. -/
def countRetry (m : Message) : Message :=
  { m with
    retryCount := m.nextRetry
    headers := m.headers.setText retryHeader (Numeral.text m.nextRetry) }

/-- One more retry does not fit into a word of 32 bits. -/
def retriesFull (m : Message) : Bool :=
  UInt32.size ≤ m.retryCount + 1

/-- The lease taken back, the message waiting again. -/
def reclaimed (m : Message) : Message :=
  { m with status := .waiting, ownerToken := none, lastHeartbeat := none }.countRetry

/-- Moved to error by lease recovery. -/
def poisoned (m : Message) (reason : String) : Message :=
  m.countRetry.failed reason

/-- Back to waiting from error: once for a message, and never after lease recovery gave it up. -/
def requeue? (m : Message) : Option Message :=
  if m.status ≠ .error ∨ m.requeued ∨ m.errorReason? = some tooManyExpiries then none
  else
    some { m with
      status := .waiting
      requeued := true
      headers := m.headers.erase errorHeader }.countRetry

end Message

/-- A message as a producer hands it to the store. -/
structure NewMessage where
  payload : Bytes
  headers : Headers := .empty
  route : Option String := none
  priority : Option Int32 := none
  visibleAfter : Option Instant := none
  expiresAt : Option Instant := none
  job : Option JobSlotKey := none
  deriving Repr, DecidableEq

namespace NewMessage

/-- Header with the name of the job that produced a message. -/
def jobNameHeader : String := "queueforge-job-name"

/-- Header with the slot, in whole seconds, that a message was produced for. -/
def jobSlotHeader : String := "queueforge-job-slot"

def withHeader (m : NewMessage) (key : String) (value : Bytes) : NewMessage :=
  { m with headers := m.headers.set key value }

/-- Tag the message with a job slot, in the key and in two headers. -/
def forJob (m : NewMessage) (name : String) (slot : Instant) : NewMessage :=
  { m with
    headers := (m.headers.setText jobNameHeader name).setText jobSlotHeader (slot.text .seconds)
    job := some ⟨name, slot⟩ }

/-- The stored message: waiting, with the id and the sequence number it was given. -/
def toMessage (m : NewMessage) (id : MessageId) (sequence : Nat) (t : Instant) : Message where
  id := id
  payload := m.payload
  headers := m.headers
  status := .waiting
  route := m.route
  priority := m.priority
  visibleAfter := m.visibleAfter
  expiresAt := m.expiresAt
  lastHeartbeat := none
  ownerToken := none
  retryCount := 0
  requeued := false
  job := m.job
  sequence := sequence
  enqueuedAt := t

end NewMessage

end WorkQueue
