import WorkQueue.Cron.Search
import WorkQueue.Message.Codec

/-! # Job records

A recurring work definition as it is stored, with the state that decides when it is due.
-/

namespace WorkQueue

structure JobRecord where
  name : String
  cron : String
  /-- The most recent slot that was enqueued. -/
  lastFiredSlot : Option Instant
  /-- How far back the first fire after an update may lie. -/
  window : Option Duration
  /-- A window was given and nothing has fired since. -/
  windowPending : Bool
  /-- When the definition was added or updated. -/
  armedAt : Instant
  removed : Bool
  deriving Repr, DecidableEq

namespace JobRecord

def make (name cron : String) (window : Option Duration) (now : Instant) : JobRecord where
  name := name
  cron := cron
  lastFiredSlot := none
  window := window
  windowPending := window.isSome
  armedAt := now
  removed := false

def isActive (j : JobRecord) : Bool := !j.removed

/-- The latest fire time inside a pending window; a window that is no span finds nothing. -/
def windowedFire? (j : JobRecord) (s : Cron.Schedule) (now : Instant) : Option Instant :=
  if j.windowPending then do
    let span ← Span.ofDuration? (← j.window)
    s.latestAtOrBefore? now span
  else none

/-- The latest fire time of the current bucket, after the definition was armed. -/
def bucketFire? (j : JobRecord) (s : Cron.Schedule) (now : Instant) : Option Instant := do
  let start ← now.shift? (-s.granularity.unit)
  s.latestBetween? (Instant.later start j.armedAt) now

/-- The slot to fire at `now`; never the one that fired last. -/
def dueSlot? (j : JobRecord) (s : Cron.Schedule) (now : Instant) : Option Instant := do
  if j.removed then none
  let fire ← (j.windowedFire? s now).or (j.bucketFire? s now)
  let slot := s.slotOf fire
  if j.lastFiredSlot = some slot then none else some slot

def markFired (j : JobRecord) (slot : Instant) : JobRecord :=
  { j with lastFiredSlot := some slot, windowPending := false }

def markRemoved (j : JobRecord) : JobRecord :=
  { j with removed := true }

end JobRecord

namespace Duration

open Json

def toJson (d : Duration) : Json :=
  .record [("secs", .nat d.seconds.toNat), ("nanos", .nat d.nanos)]

/-- Both fields and no others; whole seconds among the nanoseconds are carried. -/
def ofJson? (j : Json) : Option Duration := do
  let known := match j with
    | .object members => members.all fun m => m.1 = some "secs" || m.1 = some "nanos"
    | _ => true
  if !known then none
  match ← j.fields? ["secs", "nanos"] with
  | [secs, nanos] =>
    Duration.carry? (← required? (natUpTo? (UInt64.size - 1)) secs)
      (← required? (natUpTo? (UInt32.size - 1)) nanos)
  | _ => none

end Duration

namespace JobRecord

open Json

def fieldNames : List String :=
  ["name", "cronExpression", "lastFiredSlot", "enqueueWindow", "windowPending", "armedAt",
    "removed"]

def toJson (j : JobRecord) : Json :=
  .record [
    ("name", .text j.name),
    ("cronExpression", .text j.cron),
    ("lastFiredSlot", .ofOption Instant.toJson j.lastFiredSlot),
    ("enqueueWindow", .ofOption Duration.toJson j.window),
    ("windowPending", .bool j.windowPending),
    ("armedAt", j.armedAt.toJson),
    ("removed", .bool j.removed)]

def ofJson? (j : Json) : Option JobRecord := do
  match ← j.fields? fieldNames with
  | [name, cron, lastFiredSlot, window, windowPending, armedAt, removed] =>
    some {
      name := ← required? text? name
      cron := ← required? text? cron
      lastFiredSlot := ← nullable? Instant.ofJson? lastFiredSlot
      window := ← nullable? Duration.ofJson? window
      windowPending := ← required? bool? windowPending
      armedAt := ← required? Instant.ofJson? armedAt
      removed := ← required? bool? removed }
  | _ => none

/-- Name and slot of every active job that is due; jobs whose expression does not read are
passed over. -/
def dueSlots (jobs : List JobRecord) (now : Instant) : List (String × Instant) :=
  jobs.filterMap fun j =>
    if !j.isActive then none
    else
      match Cron.Schedule.parse j.cron with
      | .error _ => none
      | .ok s => (j.dueSlot? s now).map (j.name, ·)

end JobRecord

end WorkQueue
