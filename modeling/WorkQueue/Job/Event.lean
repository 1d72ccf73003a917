import WorkQueue.Message.Codec

/-! # Scheduler events

The outcome of one attempt to fire a job.
-/

namespace WorkQueue

inductive Event where
  /-- The message of the job was stored for the slot. -/
  | queued (job : String) (slot : Instant) (message : MessageId)
  /-- The attempt failed; the slot is tried again. -/
  | exception (job error : String)
  /-- The slot was enqueued before. -/
  | nonFatal (job info : String)
  deriving Repr, DecidableEq

namespace Event

open Json

def job : Event → String
  | .queued job _ _ | .exception job _ | .nonFatal job _ => job

def kind : Event → String
  | .queued .. => "job_queued"
  | .exception .. => "job_queue_exception"
  | .nonFatal .. => "job_non_fatal_failure"

def text (e : Event) : String := e.kind ++ "(" ++ e.job ++ ")"

def toJson : Event → Json
  | .queued job slot message => .record [("type", .text "job_queued"), ("job", .text job),
      ("slot", slot.toJson), ("message_id", message.toJson)]
  | .exception job error =>
    .record [("type", .text "job_queue_exception"), ("job", .text job), ("error", .text error)]
  | .nonFatal job info =>
    .record [("type", .text "job_non_fatal_failure"), ("job", .text job), ("info", .text info)]

/-- Read the fields that follow the tag. -/
def ofTagged? (tag : String) (body : Json) : Option Event :=
  if tag = "job_queued" then do
    match ← body.fields? ["job", "slot", "message_id"] with
    | [job, slot, message] =>
      some (.queued (← required? text? job) (← required? Instant.ofJson? slot)
        (← required? MessageId.ofJson? message))
    | _ => none
  else if tag = "job_queue_exception" then do
    match ← body.fields? ["job", "error"] with
    | [job, error] => some (.exception (← required? text? job) (← required? text? error))
    | _ => none
  else if tag = "job_non_fatal_failure" then do
    match ← body.fields? ["job", "info"] with
    | [job, info] => some (.nonFatal (← required? text? job) (← required? text? info))
    | _ => none
  else none

/-- Read an object with a tag, or an array that starts with it. The whole value is held before
the tag is known, so its depth, its numerals and its strings count even in unknown fields. -/
def ofJson? (j : Json) : Option Event := do
  if 127 < j.depth || !j.finite || !j.spelled then none
  match j with
  | .object members =>
    let tag ← (← single? members "type").bind text?
    ofTagged? tag (.object (members.filter (·.1 ≠ some "type")))
  | .array (.string (some tag) :: rest) => ofTagged? tag (.array rest)
  | _ => none

end Event

end WorkQueue
