import WorkQueue.Job.Fire
import WorkQueue.Scheduler.Events
import WorkQueue.Store.Procedure

/-! # Job scheduler

Evaluates the stored jobs against the clock and stores one message per job and due slot.
Several schedulers may work on one store; that a slot is taken shows as an event that is no
failure. A scheduler keeps, for each job it was given, the factory, a handle that can be
stopped, and the slot it fired last.
-/

namespace WorkQueue

/-- What a scheduler keeps of a job that was added to it. -/
structure LocalJob where
  name : String
  factory : PayloadFactory
  /-- The number of the handle that was given out for this definition. -/
  handle : Nat
  lastFiredSlot : Option Instant

structure Scheduler where
  jobs : List LocalJob
  /-- The number of handles given out. -/
  handles : Nat
  /-- The handles that were stopped. -/
  stopped : List Nat
  events : Subscription

namespace Scheduler

def make (eventBufferSize : Nat) : Scheduler :=
  ⟨[], 0, [], .ofSize eventBufferSize⟩

def find? (s : Scheduler) (name : String) : Option LocalJob :=
  s.jobs.find? (·.name = name)

def isStopped (s : Scheduler) (handle : Nat) : Bool :=
  s.stopped.contains handle

def stopHandle (s : Scheduler) (handle : Nat) : Scheduler :=
  { s with stopped := handle :: s.stopped }

/-- Forget a job and stop its handle. -/
def dropLocal (name : String) (s : Scheduler) : Scheduler :=
  { s with
    jobs := s.jobs.filter (·.name ≠ name)
    stopped := ((s.find? name).map (·.handle)).toList ++ s.stopped }

/-- Keep a job under a new handle, whose number is the number of handles so far; the handle of
a job with the same name is stopped. -/
def keepLocal (name : String) (factory : PayloadFactory) (lastFiredSlot : Option Instant)
    (s : Scheduler) : Scheduler :=
  let rest := s.dropLocal name
  { rest with
    jobs := rest.jobs ++ [⟨name, factory, s.handles, lastFiredSlot⟩]
    handles := s.handles + 1 }

def markLocal (name : String) (slot : Instant) (s : Scheduler) : Scheduler :=
  { s with
    jobs := s.jobs.map fun j => if j.name = name then { j with lastFiredSlot := some slot } else j }

def emit (e : Event) (s : Scheduler) : Scheduler :=
  { s with events := s.events.send e }

/-- The job to fire for a slot: kept here, not stopped, and not fired for this slot before. -/
def candidate? (s : Scheduler) (name : String) (slot : Instant) : Option LocalJob :=
  match s.find? name with
  | none => none
  | some job =>
    if s.isStopped job.handle || job.lastFiredSlot = some slot then none else some job

/-- Add a job, or replace the definition of a job that is there; the value is the number of
its handle. The slot that the stored job fired last is kept. -/
def addJob (name cron : String) (factory : PayloadFactory) (window : Option Duration)
    (now : Instant) : Procedure Scheduler (Except QueueError Nat) :=
  if (Text.trim name.toList).isEmpty then pure (.error (.config .unnamedJob))
  else
    match Cron.Schedule.parse cron with
    | .error fault => pure (.error (.invalidCron cron fault))
    | .ok _ => do
      match ← Procedure.ask .loadJobs with
      | .error e => pure (.error (.store e))
      | .ok stored =>
        let fired := (stored.find? (·.name = name)).bind (·.lastFiredSlot)
        let record := { JobRecord.make name cron window now with lastFiredSlot := fired }
        match ← Procedure.ask (.saveJob record) with
        | .error e => pure (.error (.store e))
        | .ok () => do
          let before ← Procedure.modify (keepLocal name factory fired)
          pure (.ok before.handles)

/-- Stop evaluating a job. Messages that were stored for it are left alone. -/
def removeJob (name : String) : Procedure Scheduler (Except QueueError Bool) := do
  let _ ← Procedure.modify (dropLocal name)
  match ← Procedure.ask (.removeJob name) with
  | .ok removed => pure (.ok removed)
  | .error e => pure (.error (.store e))

/-- The stored jobs that are active. -/
def activeJobs : Procedure Scheduler (Except QueueError (List JobRecord)) := do
  match ← Procedure.ask .loadJobs with
  | .ok jobs => pure (.ok (jobs.filter (·.isActive)))
  | .error e => pure (.error (.store e))

/-- Note the outcome of storing the message of a slot; the value tells whether it was stored.
The stored record is updated if the store lets it. -/
def settle (name : String) (slot : Instant) (reply : Except StoreError MessageId) :
    Procedure Scheduler Bool :=
  match reply with
  | .ok id => do
    let _ ← Procedure.modify (markLocal name slot)
    let _ ← Procedure.ask (.recordFired name slot)
    let _ ← Procedure.modify (emit (.queued name slot id))
    pure true
  | .error (.duplicateKey key) => do
    let _ ← Procedure.modify (markLocal name slot)
    let _ ← Procedure.modify (emit (.nonFatal name ("message for " ++ key ++ " already enqueued")))
    pure false
  | .error e => do
    let _ ← Procedure.modify (emit (.exception name e.text))
    pure false

/-- Fire one job for a slot if it is a candidate; the value tells whether a message was
stored. -/
def fire (now stamp : Instant) (id : MessageId) (name : String) (slot : Instant) :
    Procedure Scheduler Bool := do
  match (← Procedure.read).candidate? name slot with
  | none => pure false
  | some job =>
    match job.factory ⟨name, slot, now⟩ with
    | .error e => do
      let _ ← Procedure.modify (emit (.exception name e.text))
      pure false
    | .ok message => do
      settle name slot (← Procedure.ask (.insert (message.forJob name slot) id stamp))

/-- Fire the jobs that are due, each with an identifier of its own; the number stored. -/
def fireEach (now stamp : Instant) (draw : Nat → MessageId) :
    List (String × Instant) → (drawn stored : Nat) → Procedure Scheduler Nat
  | [], _, stored => pure stored
  | (name, slot) :: rest, drawn, stored => do
    let queued ← fire now stamp (draw drawn) name slot
    fireEach now stamp draw rest (drawn + 1) (if queued then stored + 1 else stored)

/-- One evaluation pass; the number of messages stored. -/
def tick (now stamp : Instant) (draw : Nat → MessageId) :
    Procedure Scheduler (Except QueueError Nat) := do
  match ← Procedure.ask .loadJobs with
  | .error e => pure (.error (.store e))
  | .ok jobs => do
    pure (.ok (← fireEach now stamp draw (JobRecord.dueSlots jobs now) 0 0))

end Scheduler

end WorkQueue
