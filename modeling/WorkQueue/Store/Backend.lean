import WorkQueue.Store.Memory
import WorkQueue.Store.Table

/-! # Backends

A store of either kind, and the same store behind faults that are switched on for a while.
-/

namespace WorkQueue

inductive Backend where
  | memory (store : Memory)
  | table (store : Table)
  deriving Repr, DecidableEq

namespace Backend

def name : Backend → String
  | memory _ => "memory"
  | table _ => "sqlite"

def answer : Backend → (c : Call) → c.Reply × Backend
  | memory s, c => let (r, s) := s.answer c; (r, memory s)
  | table t, c => let (r, t) := t.answer c; (r, table t)

end Backend

/-- A backend some of whose calls fail without reaching it. -/
structure FaultyStore where
  backend : Backend
  /-- The names of the calls that fail. -/
  failing : List String := []
  /-- After a scan the leases found are renewed before the caller sees them. -/
  staleScan : Bool := false
  deriving Repr, DecidableEq

namespace FaultyStore

/-- Renew the leases of messages under their own tokens. -/
def renewAll (b : Backend) (now : Instant) : List Message → Backend
  | [] => b
  | m :: rest =>
    match m.ownerToken with
    | some owner => renewAll (b.answer (.heartbeat m.id owner now)).2 now rest
    | none => renewAll b now rest

def answer (s : FaultyStore) (c : Call) : c.Reply × FaultyStore :=
  if s.failing.contains c.name then (.error (.unavailable (.injected c.name)), s)
  else
    let (reply, backend) := s.backend.answer c
    let backend := match c, reply with
      | .scan threshold, .ok found =>
        match s.staleScan, threshold.shift? .second with
        | true, some now => renewAll backend now found
        | _, _ => backend
      | _, _ => backend
    (reply, { s with backend })

end FaultyStore

end WorkQueue
