import WorkQueue.Store.Call

/-! # The store in memory

Messages are kept in the order of their sequence numbers and jobs in the order of their names.
Times are compared as instants.
-/

namespace WorkQueue

structure Memory where
  messages : List Message
  jobs : List JobRecord
  /-- The last sequence number given out. -/
  lastSequence : Nat
  deriving Repr, DecidableEq

namespace Memory

def empty : Memory := ⟨[], [], 0⟩

instance : Inhabited Memory := ⟨empty⟩

def find? (s : Memory) (id : MessageId) : Option Message :=
  s.messages.find? (·.id = id)

/-- Change the message with an identifier. -/
def modify (s : Memory) (id : MessageId) (f : Message → Message) : Memory :=
  { s with messages := s.messages.map fun m => if m.id = id then f m else m }

/-- The message that comes first in the claim order. -/
def best? : List Message → Option Message
  | [] => none
  | m :: ms =>
    match best? ms with
    | none => some m
    | some b => if b.claimedBefore m then some b else some m

/-- Some message keeps the slot of a job from being enqueued. -/
def isBlocked (messages : List Message) (key : Option JobSlotKey) : Bool :=
  key.any fun k => messages.any (·.blocks k)

/-- Add a message under the next sequence number. -/
def add (s : Memory) (m : NewMessage) (id : MessageId) (stamp : Instant) : Memory :=
  { s with
    messages := s.messages ++ [m.toMessage id (s.lastSequence + 1) stamp]
    lastSequence := s.lastSequence + 1 }

def insert (s : Memory) (m : NewMessage) (id : MessageId) (stamp : Instant) :
    Except StoreError MessageId × Memory :=
  match m.job with
  | some key =>
    if isBlocked s.messages (some key) then (.error (.duplicateKey key.text), s)
    else (.ok id, s.add m id stamp)
  | none => (.ok id, s.add m id stamp)

def claim (s : Memory) (routes : List String) (owner : Owner) (now : Instant) :
    Except StoreError (Option Message) × Memory :=
  match best? (s.messages.filter (·.isClaimable now routes)) with
  | none => (.ok none, s)
  | some m => (.ok (some (m.beginLease owner now)), s.modify m.id (·.beginLease owner now))

def heartbeat (s : Memory) (id : MessageId) (owner : Owner) (now : Instant) :
    Except StoreError Unit × Memory :=
  match s.find? id with
  | none => (.error (.notFound id), s)
  | some m =>
    if m.status ≠ .processing then (.error (.notFound id), s)
    else if !m.isOwnedBy owner then (.error (.notOwned id), s)
    else (.ok (), s.modify id (·.renew now))

def complete (s : Memory) (id : MessageId) (owner : Owner) : Except StoreError Unit × Memory :=
  match s.find? id with
  | none => (.error (.notFound id), s)
  | some m =>
    if m.status.isTerminal then (.ok (), s)
    else if m.status = .processing && m.isOwnedBy owner then (.ok (), s.modify id (·.completed))
    else (.error (.notOwned id), s)

def fail (s : Memory) (id : MessageId) (owner : Owner) (reason : String) :
    Except StoreError Unit × Memory :=
  match s.find? id with
  | none => (.error (.notFound id), s)
  | some m =>
    if m.status.canMoveTo .error && m.isOwnedBy owner then
      (.ok (), s.modify id (·.failed reason))
    else (.error (.notOwned id), s)

def scan (s : Memory) (threshold : Instant) : List Message :=
  s.messages.filter (·.leaseExpired threshold)

/-- Change a stored message whose lease is still the scanned one. -/
def recover (s : Memory) (scanned : Message) (f : Message → Message) : Bool × Memory :=
  match s.find? scanned.id with
  | none => (false, s)
  | some m =>
    if m.leaseUnchanged scanned then (true, s.modify scanned.id f) else (false, s)

def requeue (s : Memory) (id : MessageId) : Bool × Memory :=
  match (s.find? id).bind Message.requeue? with
  | none => (false, s)
  | some m =>
    if isBlocked (s.messages.filter (·.id ≠ id)) m.job then (false, s)
    else (true, s.modify id fun _ => m)

def purge (s : Memory) (now : Instant) : Nat × Memory :=
  let kept := s.messages.filter (!·.isPurgeable now)
  (s.messages.length - kept.length, { s with messages := kept })

/-- Insert or replace a job at its place by name. -/
def putJob (job : JobRecord) : List JobRecord → List JobRecord
  | [] => [job]
  | j :: js =>
    if j.name = job.name then job :: js
    else if job.name < j.name then job :: j :: js
    else j :: putJob job js

def modifyJob (s : Memory) (name : String) (f : JobRecord → JobRecord) : Memory :=
  { s with jobs := s.jobs.map fun j => if j.name = name then f j else j }

def removeJob (s : Memory) (name : String) : Bool × Memory :=
  match s.jobs.find? (·.name = name) with
  | none => (false, s)
  | some j => if j.isActive then (true, s.modifyJob name (·.markRemoved)) else (false, s)

/-- Answer a call. -/
def answer (s : Memory) : (c : Call) → c.Reply × Memory
  | .insert m id stamp => s.insert m id stamp
  | .claim routes owner now => s.claim routes owner now
  | .heartbeat id owner now => s.heartbeat id owner now
  | .complete id owner => s.complete id owner
  | .fail id owner reason => s.fail id owner reason
  | .scan threshold => (.ok (s.scan threshold), s)
  | .reset scanned => let (b, s) := s.recover scanned (·.reclaimed); (.ok b, s)
  | .poison scanned reason => let (b, s) := s.recover scanned (·.poisoned reason); (.ok b, s)
  | .requeue id => let (b, s) := s.requeue id; (.ok b, s)
  | .purge now => let (n, s) := s.purge now; (.ok n, s)
  | .get id => (.ok (s.find? id), s)
  | .countForJob name => (.ok (s.messages.countP fun m => m.job.any (·.name == name)), s)
  | .saveJob job => (.ok (), { s with jobs := putJob job s.jobs })
  | .loadJobs => (.ok s.jobs, s)
  | .removeJob name => let (b, s) := s.removeJob name; (.ok b, s)
  | .recordFired name slot => (.ok (), s.modifyJob name (·.markFired slot))

/-- The number of messages with a status. -/
def countStatus (s : Memory) (status : Status) : Nat :=
  s.messages.countP (·.status == status)

/-- Insert a message before the first one with a larger sequence number. -/
def placeBySequence (m : Message) : List Message → List Message
  | [] => [m]
  | n :: ns => if m.sequence < n.sequence then m :: n :: ns else n :: placeBySequence m ns

/-- Put a message into the store as it is, over the one with its identifier; used to stage a
state. -/
def overwrite (s : Memory) (m : Message) : Memory :=
  match s.find? m.id with
  | some _ => s.modify m.id fun _ => m
  | none => { s with messages := placeBySequence m s.messages }

end Memory

end WorkQueue
