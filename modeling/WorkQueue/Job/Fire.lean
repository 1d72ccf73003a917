import WorkQueue.Error
import WorkQueue.Json.Writer
import WorkQueue.Message.Codec

/-! # Firing a job

What a payload factory is told when a job fires. The factory builds the message, which the
scheduler then tags with the slot.
-/

namespace WorkQueue

structure JobFire where
  job : String
  slot : Instant
  firedAt : Instant
  deriving Repr, DecidableEq

/-- Builds the message of one firing, or refuses. -/
abbrev PayloadFactory := JobFire → Except QueueError NewMessage

namespace JobFire

def toJson (f : JobFire) : Json :=
  .record [("job", .text f.job), ("slot", f.slot.toJson), ("firedAt", f.firedAt.toJson)]

/-- The payload is the firing itself, as JSON. -/
def jsonPayload : PayloadFactory := fun f =>
  .ok { payload := Bytes.ofText f.toJson.render }

end JobFire

end WorkQueue
