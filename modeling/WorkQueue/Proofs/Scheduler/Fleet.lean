import Mathlib
import WorkQueue.Proofs.Cron.Values
import WorkQueue.Proofs.Scheduler.Attempts

/-! # Schedulers on one store

Any number of schedulers work on one store in memory, each call carried out without interruption,
among calls from elsewhere that touch messages only. If a name is always added with the same
expression, the slots queued for it by all schedulers together ascend. What carries this is the
stored job alone: it keeps the slot that was queued last, through additions and removals too, and a
due slot is the one of the latest fire time, so it is never an earlier one.
-/

namespace WorkQueue

/-- A store with the schedulers that work on it. -/
structure Fleet where
  store : Memory
  schedulers : List Scheduler
  clock : Instant
  /-- The events that all schedulers sent, oldest first. -/
  events : List Event

namespace Fleet

def start (schedulers : List Scheduler) (clock : Instant) : Fleet :=
  ⟨.empty, schedulers, clock, []⟩

/-- Carry out a call of one scheduler, and collect the events that it sends. -/
def act {α : Type} (f : Fleet) (i : Nat) (p : Procedure Scheduler α) : Fleet :=
  match f.schedulers[i]? with
  | none => f
  | some s =>
    let after := (p.run Memory.answer f.store s).2
    { f with
      store := after.1
      schedulers := f.schedulers.set i after.2
      events := f.events ++ after.2.events.pending.drop s.events.pending.length }

/-- A step of a run in which jobs are added with allowed expressions. Outside of its calls a
scheduler changes as it may: handles are stopped, events are read, factories answer otherwise. -/
inductive Step (allowed : String → String → Prop) (f : Fleet) : Fleet → Prop
  | wait {now : Instant} (forward : f.clock ≤ now) : Step allowed f { f with clock := now }
  | tick (i : Nat) (stamp : Instant) (draw : Nat → MessageId) :
      Step allowed f (f.act i (Scheduler.tick f.clock stamp draw))
  | add (i : Nat) {name cron : String} (allow : allowed name cron) (factory : PayloadFactory)
      (window : Option Duration) :
      Step allowed f (f.act i (Scheduler.addJob name cron factory window f.clock))
  | remove (i : Nat) (name : String) : Step allowed f (f.act i (Scheduler.removeJob name))
  | change (i : Nat) (s : Scheduler) :
      Step allowed f { f with schedulers := f.schedulers.set i s }
  | call {c : Call} (messages : c.isJobCall = false) :
      Step allowed f { f with store := (f.store.answer c).2 }

/-- The fleets that steps lead to from an empty store. -/
inductive Reachable (allowed : String → String → Prop) : Fleet → Prop
  | start (schedulers : List Scheduler) (clock : Instant) :
      Reachable allowed (start schedulers clock)
  | step {f f' : Fleet} (reachable : Reachable allowed f) (step : Step allowed f f') :
      Reachable allowed f'

/-- Under the name, jobs are added with the expression only. -/
def Always (name cron job expression : String) : Prop := job = name → expression = cron

/-- The slots queued for a job, in the order of the events. -/
def slots (f : Fleet) (name : String) : List Instant :=
  JobRecord.slotsOf name (f.events.filterMap Event.queued?)

end Fleet

/-! ## The stored job keeps the slot queued last -/

open JobRecord (Sorted dueSlots markedBy slotsOf)

/-- The slots queued for a name up to now, with what the stored jobs tell of them. -/
structure Chronicle (name cron : String) (now : Instant) (jobs : List JobRecord)
    (slots : List Instant) : Prop where
  sorted : Sorted jobs
  same : ∀ j ∈ jobs, j.name = name → j.cron = cron
  last : ∀ j ∈ jobs, j.name = name → j.lastFiredSlot = slots.getLast?
  known : slots ≠ [] → ∃ j ∈ jobs, j.name = name
  fired : ∀ slot ∈ slots, ∃ s fire, Cron.Schedule.parse cron = .ok s ∧ s.Fires fire ∧
    fire ≤ now ∧ slot = s.slotOf fire
  ascending : slots.Pairwise (· < ·)

namespace Chronicle

variable {name cron : String} {now : Instant} {jobs : List JobRecord} {slots : List Instant}

theorem empty (name cron : String) (now : Instant) : Chronicle name cron now [] [] where
  sorted := .nil
  same j hj := by cases hj
  last j hj := by cases hj
  known h := absurd rfl h
  fired slot hslot := by cases hslot
  ascending := .nil

theorem later (h : Chronicle name cron now jobs slots) {now' : Instant} (hle : now ≤ now') :
    Chronicle name cron now' jobs slots :=
  { h with
    fired := fun slot hslot => by
      obtain ⟨s, fire, hparse, hfires, hreached, heq⟩ := h.fired slot hslot
      exact ⟨s, fire, hparse, hfires, hreached.trans hle, heq⟩ }

theorem put (h : Chronicle name cron now jobs slots) {job : JobRecord}
    (hcron : job.name = name → job.cron = cron)
    (hlast : job.lastFiredSlot = (jobs.find? (·.name = job.name)).bind (·.lastFiredSlot)) :
    Chronicle name cron now (Memory.putJob job jobs) slots where
  sorted := Memory.putJob_sorted h.sorted job
  same j hj hname := by
    rcases Memory.mem_putJob h.sorted hj with rfl | hj
    · exact hcron hname
    · exact h.same j hj hname
  last j hj hname := by
    rcases Memory.mem_putJob h.sorted hj with rfl | hj
    · rw [hlast, hname]
      cases hfind : jobs.find? (·.name = name) with
      | some old =>
          have hold : old.name = name := by simpa using List.find?_some hfind
          exact h.last old (List.mem_of_find?_eq_some hfind) hold
      | none =>
          have hnone : slots = [] := by
            by_contra hsome
            obtain ⟨old, hold, hname⟩ := h.known hsome
            exact List.find?_eq_none.mp hfind old hold (decide_eq_true hname)
          rw [hnone]
          rfl
    · exact h.last j hj hname
  known hsome := by
    obtain ⟨j, hj, hname⟩ := h.known hsome
    by_cases hjob : j.name = job.name
    · exact ⟨job, (Memory.putJob_perm h.sorted job).mem_iff.mpr List.mem_cons_self,
        hjob.symm.trans hname⟩
    · exact ⟨j, (Memory.putJob_perm h.sorted job).mem_iff.mpr (List.mem_cons_of_mem _
        (List.mem_filter.mpr ⟨hj, decide_eq_true hjob⟩)), hname⟩
  fired := h.fired
  ascending := h.ascending

theorem map (h : Chronicle name cron now jobs slots) {g : JobRecord → JobRecord}
    (hname : ∀ j, (g j).name = j.name) (hcron : ∀ j, (g j).cron = j.cron)
    (hlast : ∀ j, (g j).lastFiredSlot = j.lastFiredSlot) :
    Chronicle name cron now (jobs.map g) slots where
  sorted := h.sorted.map hname
  same j hj hj' := by
    obtain ⟨old, hold, rfl⟩ := List.mem_map.mp hj
    exact (hcron old).trans (h.same old hold ((hname old).symm.trans hj'))
  last j hj hj' := by
    obtain ⟨old, hold, rfl⟩ := List.mem_map.mp hj
    exact (hlast old).trans (h.last old hold ((hname old).symm.trans hj'))
  known hsome := by
    obtain ⟨j, hj, hj'⟩ := h.known hsome
    exact ⟨g j, List.mem_map_of_mem hj, (hname j).trans hj'⟩
  fired := h.fired
  ascending := h.ascending

/-- A due slot of the name is later than all slots queued before. -/
theorem lt_due (h : Chronicle name cron now jobs slots) {slot : Instant}
    (hdue : (name, slot) ∈ dueSlots jobs now) : ∀ old ∈ slots, old < slot := by
  obtain ⟨j, hj, hname, -, s, hparse, hslot⟩ := JobRecord.mem_dueSlots.mp hdue
  rw [h.same j hj hname] at hparse
  intro old hold
  obtain ⟨earlier, last, hslots⟩ := List.eq_nil_or_concat' slots |>.resolve_left
    (List.ne_nil_of_mem hold)
  have hlast : last < slot := by
    obtain ⟨s', fire, hparse', hfires, hreached, heq⟩ := h.fired last (by simp [hslots])
    obtain rfl : s' = s := Except.ok.inj (hparse'.symm.trans hparse)
    rw [heq]
    refine JobRecord.lt_dueSlot? (Cron.Schedule.parse_ordered hparse) hslot hfires hreached ?_
    rw [h.last j hj hname, hslots, List.getLast?_concat, heq]
  have hascends := h.ascending
  rw [hslots] at hold hascends
  rcases List.mem_append.mp hold with hold | hold
  · exact ((List.pairwise_append.mp hascends).2.2 old hold last
      (List.mem_singleton_self last)).trans hlast
  · rwa [List.mem_singleton.mp hold]

theorem queue (h : Chronicle name cron now jobs slots) {fired : List (String × Instant)}
    (hdue : fired.Sublist (dueSlots jobs now)) :
    Chronicle name cron now (jobs.map (markedBy fired)) (slots ++ slotsOf name fired) where
  sorted := h.sorted.map fun j => (j.markedBy_definition fired).1
  same j hj hname := by
    obtain ⟨old, hold, rfl⟩ := List.mem_map.mp hj
    obtain ⟨hname', hcron⟩ := old.markedBy_definition fired
    exact hcron.trans (h.same old hold (hname'.symm.trans hname))
  last j hj hname := by
    obtain ⟨old, hold, rfl⟩ := List.mem_map.mp hj
    have hname' := (old.markedBy_definition fired).1.symm.trans hname
    rw [old.markedBy_lastFiredSlot, List.getLast?_append, hname', h.last old hold hname']
  known hsome := by
    have hknown : ∃ j ∈ jobs, j.name = name := by
      by_cases hslots : slots = []
      · rw [hslots, List.nil_append] at hsome
        obtain ⟨slot, hslot⟩ := List.exists_mem_of_ne_nil _ hsome
        obtain ⟨j, hj, hname, -⟩ :=
          JobRecord.mem_dueSlots.mp (hdue.subset (JobRecord.mem_slotsOf.mp hslot))
        exact ⟨j, hj, hname⟩
      · exact h.known hslots
    obtain ⟨j, hj, hname⟩ := hknown
    exact ⟨_, List.mem_map_of_mem hj, (j.markedBy_definition fired).1.trans hname⟩
  fired slot hslot := by
    rcases List.mem_append.mp hslot with hslot | hslot
    · exact h.fired slot hslot
    · obtain ⟨j, hj, hname, -, s, hparse, hslot⟩ :=
        JobRecord.mem_dueSlots.mp (hdue.subset (JobRecord.mem_slotsOf.mp hslot))
      rw [h.same j hj hname] at hparse
      obtain ⟨-, fire, hlatest, heq⟩ :=
        JobRecord.dueSlot?_latest (Cron.Schedule.parse_ordered hparse) hslot
      exact ⟨s, fire, hparse, hlatest.fires, hlatest.reached, heq⟩
  ascending := by
    have hnames : fired.Pairwise fun p q => p.1 ≠ q.1 :=
      List.pairwise_map.mp (h.sorted.names.sublist
        ((hdue.map _).trans (JobRecord.dueSlots_names jobs now)))
    refine List.pairwise_append.mpr ⟨h.ascending, ?_, fun old hold slot hslot =>
      h.lt_due (hdue.subset (JobRecord.mem_slotsOf.mp hslot)) old hold⟩
    -- at most one slot of the name is due at a time
    refine List.pairwise_map.mpr (List.pairwise_filter.mpr (hnames.imp fun hne hp hq => ?_))
    exact absurd ((of_decide_eq_true hp).trans (of_decide_eq_true hq).symm) hne

end Chronicle

/-! ## Every run -/

namespace Fleet

variable {name cron : String} {f f' : Fleet}

/-- What a fleet tells of a name. -/
def Keeps (name cron : String) (f : Fleet) : Prop :=
  Chronicle name cron f.clock f.store.jobs (f.slots name)

theorem act_clock {α : Type} (f : Fleet) (i : Nat) (p : Procedure Scheduler α) :
    (f.act i p).clock = f.clock := by
  unfold act
  split <;> rfl

/-- What a step makes of the stored jobs, and the events that it sends. -/
inductive Change (allowed : String → String → Prop) (f : Fleet) :
    List JobRecord → List Event → Prop
  | none : Change allowed f f.store.jobs []
  | ticked {events : List Event}
      (named : ∀ e ∈ events, e.job ∈ (dueSlots f.store.jobs f.clock).map (·.1))
      (due : (events.filterMap Event.queued?).Sublist (dueSlots f.store.jobs f.clock)) :
      Change allowed f (f.store.jobs.map (markedBy (events.filterMap Event.queued?))) events
  | added {job : JobRecord} (allow : allowed job.name job.cron)
      (last : job.lastFiredSlot =
        (f.store.jobs.find? (·.name = job.name)).bind (·.lastFiredSlot)) :
      Change allowed f (Memory.putJob job f.store.jobs) []
  | removed (job : String) :
      Change allowed f
        (f.store.jobs.map fun j => if Table.isNamed job j then j.markRemoved else j) []

variable {allowed : String → String → Prop}

theorem act_change {α : Type} {p : Procedure Scheduler α} (i : Nat)
    (hp : ∀ s, ∃ events,
      (p.run Memory.answer f.store s).2.2.events.pending = s.events.pending ++ events ∧
        Change allowed f (p.run Memory.answer f.store s).2.1.jobs events) :
    ∃ events, (f.act i p).events = f.events ++ events ∧
      Change allowed f (f.act i p).store.jobs events := by
  unfold act
  split
  · exact ⟨[], (List.append_nil _).symm, .none⟩
  · rename_i s _
    obtain ⟨events, hpending, hchange⟩ := hp s
    refine ⟨events, ?_, hchange⟩
    dsimp only
    rw [hpending, List.drop_left]

theorem tick_change (hsorted : Sorted f.store.jobs) (stamp : Instant) (draw : Nat → MessageId)
    (s : Scheduler) :
    let after := ((Scheduler.tick f.clock stamp draw).run Memory.answer f.store s).2
    ∃ events, after.2.events.pending = s.events.pending ++ events ∧
      Change allowed f after.1.jobs events := by
  intro after
  obtain ⟨events, hpending, hdue, hjobs⟩ := Scheduler.tick_queues f.clock stamp draw f.store s
  have hload : (f.store.answer .loadJobs).1 = .ok f.store.jobs := rfl
  obtain ⟨sent, hsends, -⟩ := Scheduler.tick_sends hload hsorted.names f.clock stamp draw s
  obtain rfl : events = sent := List.append_cancel_left (hpending.symm.trans hsends.pending)
  exact ⟨events, hpending, hjobs ▸ .ticked hsends.named hdue⟩

theorem Step.changes (h : Step allowed f f') (hsorted : Sorted f.store.jobs) :
    ∃ events, f'.events = f.events ++ events ∧ Change allowed f f'.store.jobs events := by
  cases h with
  | wait | change => exact ⟨[], (List.append_nil _).symm, .none⟩
  | tick i stamp draw => exact act_change i (tick_change hsorted stamp draw)
  | @add i job expr hallow factory window =>
      refine act_change i fun s => ⟨[], ?_⟩
      obtain ⟨hevents, hjobs⟩ :=
        Scheduler.addJob_effect job expr factory window f.clock f.store s
      rw [hevents, List.append_nil]
      refine ⟨rfl, ?_⟩
      rcases hjobs with hjobs | hjobs
      · exact hjobs ▸ .none
      · exact hjobs ▸ .added hallow rfl
  | remove i job =>
      refine act_change i fun s => ⟨[], ?_⟩
      obtain ⟨hevents, hjobs⟩ := Scheduler.removeJob_effect job hsorted s
      rw [hevents, List.append_nil]
      exact ⟨rfl, hjobs ▸ .removed job⟩
  | call hmessages =>
      refine ⟨[], (List.append_nil _).symm, ?_⟩
      rw [Memory.answer_jobs f.store hmessages]
      exact .none

theorem Step.forward (h : Step allowed f f') : f.clock ≤ f'.clock := by
  cases h with
  | wait hforward => exact hforward
  | tick | add | remove => exact (act_clock f _ _).ge
  | change | call => exact le_refl _

theorem slots_append {events : List Event} (h : f'.events = f.events ++ events) (name : String) :
    f'.slots name = f.slots name ++ slotsOf name (events.filterMap Event.queued?) := by
  rw [slots, h, List.filterMap_append, JobRecord.slotsOf_append]
  rfl

theorem slots_quiet (slots : List Instant) (name : String) :
    slots ++ slotsOf name (([] : List Event).filterMap Event.queued?) = slots :=
  List.append_nil slots

theorem Step.keeps (h : Step (Always name cron) f f')
    (hf : f.Keeps name cron) : f'.Keeps name cron := by
  obtain ⟨events, hevents, hchange⟩ := h.changes (Chronicle.sorted hf)
  refine Chronicle.later ?_ h.forward
  rw [slots_append hevents]
  generalize f'.store.jobs = jobs at hchange ⊢
  cases hchange with
  | none =>
      rw [slots_quiet]
      exact hf
  | ticked hnamed hdue => exact Chronicle.queue hf hdue
  | added hallow hlast =>
      rw [slots_quiet]
      exact Chronicle.put hf hallow hlast
  | removed job =>
      rw [slots_quiet]
      refine Chronicle.map hf (fun j => ?_) (fun j => ?_) fun j => ?_ <;> split <;> rfl

theorem Reachable.keeps (h : Reachable (Always name cron) f) :
    f.Keeps name cron := by
  induction h with
  | start schedulers clock => exact .empty name cron clock
  | step _ hstep ih => exact hstep.keeps ih

/-- If a name is always added with the same expression, the slots queued for it ascend strictly,
so no slot is queued twice, whatever became of its message. -/
theorem queued_slots_ascend (h : Reachable (Always name cron) f) :
    (f.slots name).Pairwise (· < ·) ∧ (f.slots name).Nodup :=
  ⟨h.keeps.ascending, h.keeps.ascending.imp ne_of_lt⟩

/-- Two schedulers, and a message that failed before one of them removed the job and the other added
it once more: its slot lies in the window and is not queued again, the next one is. -/
theorem queued_slots_ascend_readded :
    let report : PayloadFactory := fun _ => .ok { payload := [1] }
    let add (f : Fleet) (i : Nat) : Fleet := f.act i
      (Scheduler.addJob "report" "0 * * * * *" report (some ⟨60, 0, by decide⟩) f.clock)
    let tick (f : Fleet) (i n : Nat) : Fleet :=
      f.act i (Scheduler.tick f.clock .epoch fun _ => ⟨.ofNat n⟩)
    let call (f : Fleet) (c : Call) : Fleet := { f with store := (f.store.answer c).2 }
    let queued := tick (add (start [.make 8, .make 8] ⟨30, 0, by decide⟩) 0) 0 1
    let failed := call (call queued (.claim [] ⟨"a"⟩ queued.clock)) (.fail ⟨.ofNat 1⟩ ⟨"a"⟩ "no")
    let again := tick (add (failed.act 0 (Scheduler.removeJob "report")) 1) 1 2
    let last := tick { again with clock := ⟨60, 0, by decide⟩ } 1 3
    last.slots "report" = [.epoch, ⟨60, 0, by decide⟩] ∧
      (last.slots "report").Pairwise (· < ·) ∧ (last.slots "report").Nodup := by
  intro report add tick call queued failed again last
  let allowed := Always "report" "0 * * * * *"
  have hadd {f : Fleet} (h : Reachable allowed f) (i : Nat) : Reachable allowed (add f i) :=
    h.step (.add i (fun _ => rfl) report _)
  have htick {f : Fleet} (h : Reachable allowed f) (i n : Nat) : Reachable allowed (tick f i n) :=
    h.step (.tick i .epoch _)
  have hcall {f : Fleet} (h : Reachable allowed f) {c : Call} (hc : c.isJobCall = false) :
      Reachable allowed (call f c) := h.step (.call hc)
  have hfailed : Reachable allowed failed := hcall (hcall (htick (hadd (.start _ _) 0) 0 1) rfl) rfl
  have hagain : Reachable allowed again :=
    htick (hadd (hfailed.step (.remove 0 "report")) 1) 1 2
  have hforward : again.clock ≤ ⟨60, 0, by decide⟩ := by decide +kernel
  exact ⟨by decide +kernel, queued_slots_ascend (htick (hagain.step (.wait hforward)) 1 3)⟩

end Fleet

end WorkQueue
