import WorkQueue.Instant.Reader
import WorkQueue.Json.Fields
import WorkQueue.Message.Basic

/-! # Messages as JSON

Writing and reading of messages and of what they are made of. Every reader takes what its
writer gives.
-/

namespace WorkQueue

open Json

def Instant.toJson (t : Instant) : Json := .text (t.text .exact)

def Instant.ofJson? (j : Json) : Option Instant := j.text?.bind Instant.ofText?

namespace Bytes

def toJson (b : Bytes) : Json := .list (fun n => .nat n.toNat) b

def ofJson? : Json → Option Bytes :=
  items? fun j => (j.natUpTo? 255).map UInt8.ofNat

end Bytes

namespace MessageId

def toJson (id : MessageId) : Json := .text id.text

def ofJson? (j : Json) : Option MessageId := j.text?.bind ofText?

end MessageId

namespace Owner

def toJson (o : Owner) : Json := .text o.token

def ofJson? (j : Json) : Option Owner := j.text?.map (⟨·⟩)

end Owner

namespace Headers

def toJson (h : Headers) : Json :=
  .list (fun e => .array [.text e.1, Bytes.toJson e.2]) h.entries

/-- Repeated keys are kept. -/
def ofJson? (j : Json) : Option Headers :=
  (j.items? (pair? text? Bytes.ofJson?)).map (⟨·⟩)

end Headers

namespace Status

def toJson (s : Status) : Json := .text s.text

/-- A status is read from its word, or from an object whose only key is the word. -/
def ofJson? : Json → Option Status
  | .string (some s) => ofText? s
  | .object [(some s, .null)] => ofText? s
  | _ => none

end Status

namespace JobSlotKey

def toJson (k : JobSlotKey) : Json :=
  .record [("name", .text k.name), ("slot", k.slot.toJson)]

def ofJson? (j : Json) : Option JobSlotKey := do
  match ← j.fields? ["name", "slot"] with
  | [name, slot] => some ⟨← required? text? name, ← required? Instant.ofJson? slot⟩
  | _ => none

end JobSlotKey

namespace Message

/-- The names of the fields in their order. -/
def fieldNames : List String :=
  ["id", "payload", "headers", "status", "route", "priority", "visible_after", "expires_at",
    "last_heartbeat", "owner_token", "retry_count", "requeued", "job", "sequence", "enqueued_at"]

def toJson (m : Message) : Json :=
  .record [
    ("id", m.id.toJson),
    ("payload", Bytes.toJson m.payload),
    ("headers", m.headers.toJson),
    ("status", m.status.toJson),
    ("route", .ofOption .text m.route),
    ("priority", .ofOption (fun p => .integer p.toInt) m.priority),
    ("visible_after", .ofOption Instant.toJson m.visibleAfter),
    ("expires_at", .ofOption Instant.toJson m.expiresAt),
    ("last_heartbeat", .ofOption Instant.toJson m.lastHeartbeat),
    ("owner_token", .ofOption Owner.toJson m.ownerToken),
    ("retry_count", .nat m.retryCount),
    ("requeued", .bool m.requeued),
    ("job", .ofOption JobSlotKey.toJson m.job),
    ("sequence", .nat m.sequence),
    ("enqueued_at", m.enqueuedAt.toJson)]

/-- A word of 32 bits with a sign. -/
def priorityOfJson? (j : Json) : Option Int32 :=
  (j.intWithin? (-2147483648) 2147483647).map Int32.ofInt

def ofJson? (j : Json) : Option Message := do
  match ← j.fields? fieldNames with
  | [id, payload, headers, status, route, priority, visibleAfter, expiresAt, lastHeartbeat,
      ownerToken, retryCount, requeued, job, sequence, enqueuedAt] =>
    some {
      id := ← required? MessageId.ofJson? id
      payload := ← required? Bytes.ofJson? payload
      headers := ← required? Headers.ofJson? headers
      status := ← required? Status.ofJson? status
      route := ← nullable? text? route
      priority := ← nullable? priorityOfJson? priority
      visibleAfter := ← nullable? Instant.ofJson? visibleAfter
      expiresAt := ← nullable? Instant.ofJson? expiresAt
      lastHeartbeat := ← nullable? Instant.ofJson? lastHeartbeat
      ownerToken := ← nullable? Owner.ofJson? ownerToken
      retryCount := ← required? (natUpTo? (UInt32.size - 1)) retryCount
      requeued := ← required? bool? requeued
      job := ← nullable? JobSlotKey.ofJson? job
      sequence := ← required? (natUpTo? (UInt64.size - 1)) sequence
      enqueuedAt := ← required? Instant.ofJson? enqueuedAt }
  | _ => none

end Message

end WorkQueue
