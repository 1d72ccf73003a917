import Mathlib
import WorkQueue.Scheduler.Basic
import WorkQueue.Proofs.Job.Due
import WorkQueue.Proofs.Store.Jobs

/-! # Whole scheduler calls and the stored jobs

A call that is carried out without interruption on a store in memory changes the stored jobs in one
way only: a tick notes the slots that its events tell as queued, and these are some of the due ones;
an addition puts one record at its place; a removal leaves every fired slot as it is.
-/

namespace WorkQueue

/-- The job and the slot of an event that tells of a stored message. -/
def Event.queued? : Event → Option (String × Instant)
  | queued job slot _ => some (job, slot)
  | exception .. | nonFatal .. => none

namespace JobRecord

/-- The job after the fired slots of its name are noted, one after the other. -/
def markedBy (fired : List (String × Instant)) (j : JobRecord) : JobRecord :=
  fired.foldl (fun j p => if j.name = p.1 then j.markFired p.2 else j) j

theorem markedBy_append (earlier later : List (String × Instant)) (j : JobRecord) :
    j.markedBy (earlier ++ later) = (j.markedBy earlier).markedBy later :=
  List.foldl_append

/-- The slots that fired for a name. -/
def slotsOf (name : String) (fired : List (String × Instant)) : List Instant :=
  (fired.filter (·.1 = name)).map (·.2)

theorem slotsOf_append (name : String) (earlier later : List (String × Instant)) :
    slotsOf name (earlier ++ later) = slotsOf name earlier ++ slotsOf name later := by
  rw [slotsOf, List.filter_append, List.map_append, slotsOf, slotsOf]

theorem mem_slotsOf {name : String} {fired : List (String × Instant)} {slot : Instant} :
    slot ∈ slotsOf name fired ↔ (name, slot) ∈ fired := by
  simp [slotsOf]

theorem markedBy_concat (fired : List (String × Instant)) (p : String × Instant)
    (j : JobRecord) :
    j.markedBy (fired ++ [p]) =
      if (j.markedBy fired).name = p.1 then (j.markedBy fired).markFired p.2
      else j.markedBy fired :=
  markedBy_append fired [p] j

theorem markedBy_definition (fired : List (String × Instant)) (j : JobRecord) :
    (j.markedBy fired).name = j.name ∧ (j.markedBy fired).cron = j.cron := by
  induction fired using List.reverseRecOn with
  | nil => exact ⟨rfl, rfl⟩
  | append_singleton fired p ih =>
      rw [markedBy_concat]
      split <;> exact ih

theorem markedBy_others {fired : List (String × Instant)} {j : JobRecord}
    (h : ∀ p ∈ fired, p.1 ≠ j.name) : j.markedBy fired = j := by
  induction fired with
  | nil => rfl
  | cons p fired ih =>
      have hne : ¬j.name = p.1 := fun heq => h p List.mem_cons_self heq.symm
      rw [markedBy, List.foldl_cons, if_neg hne]
      exact ih fun q hq => h q (List.mem_cons_of_mem p hq)

theorem markedBy_lastFiredSlot (fired : List (String × Instant)) (j : JobRecord) :
    (j.markedBy fired).lastFiredSlot =
      (slotsOf j.name fired).getLast?.or j.lastFiredSlot := by
  induction fired using List.reverseRecOn with
  | nil => rfl
  | append_singleton fired p ih =>
      have hname := (j.markedBy_definition fired).1
      rw [markedBy_concat, slotsOf_append]
      by_cases heq : j.name = p.1
      · have hslots : slotsOf j.name [p] = [p.2] := by simp [slotsOf, heq]
        rw [if_pos (hname.trans heq), hslots, List.getLast?_concat]
        rfl
      · have hslots : slotsOf j.name [p] = [] := by simp [slotsOf, Ne.symm heq]
        rw [if_neg (hname.trans_ne heq), hslots, List.append_nil]
        exact ih

end JobRecord

namespace Scheduler

open JobRecord (dueSlots markedBy)

variable {due : List (String × Instant)} {jobs : List JobRecord} {s : Scheduler}
  {store : Memory} {now stamp : Instant}

/-- Some events were sent, the slots queued by them are due, and just these are noted in the
stored jobs. -/
def Queues (due : List (String × Instant)) (jobs : List JobRecord) (s : Scheduler)
    (after : Memory × Scheduler) : Prop :=
  ∃ events, after.2.events.pending = s.events.pending ++ events ∧
    (events.filterMap Event.queued?).Sublist due ∧
    after.1.jobs = jobs.map (markedBy (events.filterMap Event.queued?))

theorem Queues.silent {after : Memory × Scheduler} (hjobs : after.1.jobs = jobs)
    {events : List Event} (hevents : after.2.events.pending = s.events.pending ++ events)
    (hnone : events.filterMap Event.queued? = []) : Queues due jobs s after := by
  refine ⟨events, hevents, ?_, ?_⟩
  · rw [hnone]
    exact List.nil_sublist _
  · rw [hnone, hjobs]
    exact (List.map_id jobs).symm

theorem Queues.trans {first rest : List (String × Instant)} {mid after : Memory × Scheduler}
    (h : Queues first jobs s mid) (h' : Queues rest mid.1.jobs mid.2 after) :
    Queues (first ++ rest) jobs s after := by
  obtain ⟨events, hpending, hdue, hjobs⟩ := h
  obtain ⟨events', hpending', hdue', hjobs'⟩ := h'
  refine ⟨events ++ events', ?_, ?_, ?_⟩
  · rw [hpending', hpending, List.append_assoc]
  · rw [List.filterMap_append]
    exact hdue.append hdue'
  · rw [hjobs', hjobs, List.map_map, List.filterMap_append]
    exact List.map_congr_left fun j _ => (JobRecord.markedBy_append _ _ j).symm

theorem settle_queues (name : String) (slot : Instant) (reply : Except StoreError MessageId)
    (store : Memory) (s : Scheduler) :
    Queues [(name, slot)] store.jobs s ((settle name slot reply).run Memory.answer store s).2 := by
  cases reply with
  | ok id => exact ⟨[.queued name slot id], rfl, .refl _, rfl⟩
  | error e => cases e <;> exact .silent rfl rfl rfl

theorem fire_queues (now stamp : Instant) (id : MessageId) (name : String) (slot : Instant)
    (store : Memory) (s : Scheduler) :
    Queues [(name, slot)] store.jobs s
      ((fire now stamp id name slot).run Memory.answer store s).2 := by
  rw [fire, Procedure.run_bind, Procedure.run_read]
  dsimp only
  cases s.candidate? name slot with
  | none => exact .silent rfl (List.append_nil _).symm rfl
  | some job =>
      dsimp only
      cases job.factory ⟨name, slot, now⟩ with
      | error e => exact .silent rfl rfl rfl
      | ok message =>
          dsimp only
          rw [Procedure.run_bind, Procedure.run_ask,
            ← Memory.answer_jobs store (c := .insert (message.forJob name slot) id stamp) rfl]
          exact settle_queues name slot _ _ s

theorem fireEach_queues (now stamp : Instant) (draw : Nat → MessageId)
    (due : List (String × Instant)) (drawn stored : Nat) (store : Memory) (s : Scheduler) :
    Queues due store.jobs s
      ((fireEach now stamp draw due drawn stored).run Memory.answer store s).2 := by
  induction due generalizing drawn stored store s with
  | nil => exact .silent rfl (List.append_nil _).symm rfl
  | cons p due ih =>
      rw [fireEach, Procedure.run_bind]
      exact (fire_queues now stamp (draw drawn) p.1 p.2 store s).trans (ih _ _ _ _)

theorem tick_queues (now stamp : Instant) (draw : Nat → MessageId) (store : Memory)
    (s : Scheduler) :
    Queues (dueSlots store.jobs now) store.jobs s
      ((tick now stamp draw).run Memory.answer store s).2 := by
  rw [tick, Procedure.run_bind, Procedure.run_ask, Memory.answer]
  dsimp only
  rw [Procedure.run_bind]
  exact fireEach_queues now stamp draw _ 0 0 store s

/-- Adding a job is refused, or puts a record that keeps the slot last fired under the name. -/
theorem addJob_effect (name cron : String) (factory : PayloadFactory) (window : Option Duration)
    (now : Instant) (store : Memory) (s : Scheduler) :
    let after := ((addJob name cron factory window now).run Memory.answer store s).2
    after.2.events = s.events ∧ (after.1.jobs = store.jobs ∨
      after.1.jobs = Memory.putJob { JobRecord.make name cron window now with
        lastFiredSlot := (store.jobs.find? (·.name = name)).bind (·.lastFiredSlot) }
          store.jobs) := by
  unfold addJob
  split
  · exact ⟨rfl, .inl rfl⟩
  · split
    · exact ⟨rfl, .inl rfl⟩
    · exact ⟨rfl, .inr rfl⟩

theorem removeJob_effect (name : String) {store : Memory} (h : JobRecord.Sorted store.jobs)
    (s : Scheduler) :
    let after := ((removeJob name).run Memory.answer store s).2
    after.2.events = s.events ∧ after.1.jobs =
      store.jobs.map fun j => if Table.isNamed name j then j.markRemoved else j := by
  have hstore : ((removeJob name).run Memory.answer store s).2 =
      ((store.removeJob name).2, s.dropLocal name) := by rfl
  rw [hstore, Table.memory_removeJob h]
  exact ⟨rfl, rfl⟩

end Scheduler

end WorkQueue
