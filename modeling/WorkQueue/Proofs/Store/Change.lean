import Mathlib
import WorkQueue.Proofs.Message.Moves
import WorkQueue.Store.Call

/-! # Changes of a message

A call that finds a message may change it, and `Change` says which call makes which message of it
and with which reply. Times pass through a function before they are stored or compared, because one
of the stores cuts them.
-/

namespace WorkQueue

/-- A call with the reply that it got. -/
structure Entry where
  call : Call
  reply : call.Reply

namespace Call

/-- The identifier that a message is stored under. -/
def insertedId? : Call → Option MessageId
  | insert _ id _ => some id
  | _ => none

/-- The token that a message is claimed under. -/
def claimToken? : Call → Option Owner
  | claim _ token _ => some token
  | _ => none

/-- The scanned message whose lease is taken back. -/
def snapshot? : Call → Option Message
  | reset scanned => some scanned
  | poison scanned _ => some scanned
  | _ => none

/-- The call reads or writes jobs and no messages. -/
def isJobCall : Call → Bool
  | saveJob _ | loadJobs | removeJob _ | recordFired _ _ => true
  | _ => false

end Call

namespace Entry

/-- The message that a claim handed out. -/
def handed? : Entry → Option Message
  | ⟨.claim .., .ok found⟩ => found
  | _ => none

/-- The message that a call changed, as its reply tells. The reply to a completion does not tell. -/
def changed? : Entry → Option MessageId
  | ⟨.claim .., .ok found⟩ => found.map (·.id)
  | ⟨.heartbeat id .., .ok _⟩ => some id
  | ⟨.fail id .., .ok _⟩ => some id
  | ⟨.reset scanned, .ok true⟩ => some scanned.id
  | ⟨.poison scanned _, .ok true⟩ => some scanned.id
  | ⟨.requeue id, .ok true⟩ => some id
  | _ => none

theorem changed?_of_handed? {e : Entry} {m : Message} (h : e.handed? = some m) :
    e.changed? = some m.id := by
  obtain ⟨c, r⟩ := e
  cases c with
  | claim =>
      cases r with
      | error e => cases h
      | ok found =>
          obtain rfl : found = some m := h
          rfl
  | _ => cases h

/-- The message that a completion was answered for. -/
def completed? : Entry → Option MessageId
  | ⟨.complete id _, .ok _⟩ => some id
  | _ => none

/-- The messages that a scan found. -/
def found : Entry → List Message
  | ⟨.scan _, .ok found⟩ => found
  | _ => []

end Entry

/-- What a call that finds a message and changes it makes of it. -/
inductive Message.Change (cut : Instant → Instant) : (c : Call) → c.Reply → Message → Message → Prop
  | claim {m : Message} {routes : List String} {token : Owner} {now : Instant}
      (claimable : m.isClaimable (cut now) routes = true) :
      Change cut (.claim routes token now) (.ok (some (m.beginLease token (cut now)))) m
        (m.beginLease token (cut now))
  | renew {m : Message} {token : Owner} {now : Instant} (held : m.status = .processing)
      (owned : m.ownerToken = some token) :
      Change cut (.heartbeat m.id token now) (.ok ()) m (m.renew (cut now))
  | complete {m : Message} {token : Owner} (held : m.status = .processing)
      (owned : m.ownerToken = some token) :
      Change cut (.complete m.id token) (.ok ()) m m.completed
  | fail {m : Message} {token : Owner} {reason : String} (held : m.status = .processing)
      (owned : m.ownerToken = some token) :
      Change cut (.fail m.id token reason) (.ok ()) m (m.failed reason)
  | reset {m scanned : Message} (same : m.id = scanned.id)
      (unchanged : m.leaseUnchanged scanned = true) :
      Change cut (.reset scanned) (.ok true) m m.reclaimed
  | poison {m scanned : Message} {reason : String} (same : m.id = scanned.id)
      (unchanged : m.leaseUnchanged scanned = true) :
      Change cut (.poison scanned reason) (.ok true) m (m.poisoned reason)
  | requeue {m m' : Message} (requeued : m.requeue? = some m') :
      Change cut (.requeue m.id) (.ok true) m m'

namespace Message

/-- The headers that the queue keeps for itself. -/
def ownHeaders : List String := [retryHeader, errorHeader]

/-- The second message is the first with nothing changed but the status, the lease, the retries and
the queue's own headers. -/
structure Keeps (m m' : Message) : Prop where
  id : m'.id = m.id
  payload : m'.payload = m.payload
  route : m'.route = m.route
  priority : m'.priority = m.priority
  visibleAfter : m'.visibleAfter = m.visibleAfter
  expiresAt : m'.expiresAt = m.expiresAt
  job : m'.job = m.job
  sequence : m'.sequence = m.sequence
  enqueuedAt : m'.enqueuedAt = m.enqueuedAt
  headers : m'.headers.without ownHeaders = m.headers.without ownHeaders

theorem Keeps.refl (m : Message) : m.Keeps m :=
  ⟨rfl, rfl, rfl, rfl, rfl, rfl, rfl, rfl, rfl, rfl⟩

theorem Keeps.trans {a b c : Message} (h : a.Keeps b) (h' : b.Keeps c) : a.Keeps c where
  id := h'.id.trans h.id
  payload := h'.payload.trans h.payload
  route := h'.route.trans h.route
  priority := h'.priority.trans h.priority
  visibleAfter := h'.visibleAfter.trans h.visibleAfter
  expiresAt := h'.expiresAt.trans h.expiresAt
  job := h'.job.trans h.job
  sequence := h'.sequence.trans h.sequence
  enqueuedAt := h'.enqueuedAt.trans h.enqueuedAt
  headers := h'.headers.trans h.headers

variable {cut : Instant → Instant} {c : Call} {r : c.Reply} {m m' : Message}

theorem keeps_of_headers {headers : Headers} {status : Status} {owner : Option Owner}
    {beat : Option Instant} {retries : Nat} {requeued : Bool}
    (h : headers.without ownHeaders = m.headers.without ownHeaders) :
    m.Keeps { m with
      status, headers, requeued
      ownerToken := owner, lastHeartbeat := beat, retryCount := retries } :=
  ⟨rfl, rfl, rfl, rfl, rfl, rfl, rfl, rfl, rfl, h⟩

theorem Change.keeps (h : m.Change cut c r m') : m.Keeps m' := by
  have hretry : retryHeader ∈ ownHeaders := by decide
  have herror : errorHeader ∈ ownHeaders := by decide
  cases h with
  | claim | renew | complete => exact keeps_of_headers rfl
  | fail => exact keeps_of_headers (Headers.without_setText herror _ _)
  | reset => exact keeps_of_headers (Headers.without_setText hretry _ _)
  | poison =>
      refine keeps_of_headers ?_
      rw [Headers.without_setText herror]
      exact Headers.without_setText hretry _ _
  | requeue hrequeue =>
      obtain ⟨-, -, -, rfl⟩ := requeue?_eq_some hrequeue
      refine keeps_of_headers ?_
      rw [Headers.without_setText hretry]
      exact Headers.without_erase herror _

theorem Change.eq_of_changed? (h : m.Change cut c r m') {id : MessageId}
    (hid : Entry.changed? ⟨c, r⟩ = some id) : id = m.id := by
  cases h with
  | complete => cases hid
  | reset hsame | poison hsame => exact (Option.some.inj hid).symm.trans hsame.symm
  | _ => exact (Option.some.inj hid).symm

end Message

end WorkQueue
