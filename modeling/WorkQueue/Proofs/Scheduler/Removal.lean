import Mathlib
import WorkQueue.Proofs.Scheduler.Definition
import WorkQueue.Proofs.Scheduler.Fleet
import WorkQueue.Proofs.Scheduler.Tick
import WorkQueue.Proofs.Store.Kept

/-! # Removed jobs

A removal marks the stored job, and the mark is what every scheduler goes by: a removed job is never
due, so no tick attempts it, even where it is still kept and running. Nothing but an addition under
the name takes the mark away, and it finds the slot that fired last, as the marked job still has it.
-/

namespace WorkQueue

/-- The call neither saves nor fires a job of the name. -/
def Call.Spares (name : String) : Call → Prop
  | saveJob job => job.name ≠ name
  | recordFired job _ => job ≠ name
  | _ => True

open JobRecord (Sorted dueSlots markedBy slotsOf)

variable {name : String} {jobs : List JobRecord} {slots : List Instant} {store : Memory}

/-! ## The slot that was queued last -/

/-- The stored job of a name has the slot that was queued last. -/
structure Recalls (name : String) (jobs : List JobRecord) (slots : List Instant) : Prop where
  sorted : Sorted jobs
  last : (jobs.find? (·.name = name)).bind (·.lastFiredSlot) = slots.getLast?

namespace Recalls

theorem put (h : Recalls name jobs slots) {job : JobRecord}
    (hlast : job.lastFiredSlot = (jobs.find? (·.name = job.name)).bind (·.lastFiredSlot)) :
    Recalls name (Memory.putJob job jobs) slots where
  sorted := Memory.putJob_sorted h.sorted job
  last := by
    rw [Memory.find?_putJob, ← h.last]
    split
    · rename_i hname
      exact hname ▸ hlast
    · rfl

theorem map (h : Recalls name jobs slots) {g : JobRecord → JobRecord}
    (hname : ∀ j, (g j).name = j.name) (hlast : ∀ j, (g j).lastFiredSlot = j.lastFiredSlot) :
    Recalls name (jobs.map g) slots where
  sorted := h.sorted.map hname
  last := by
    rw [find?_map_of_key (k := JobRecord.name) hname, ← h.last]
    cases jobs.find? (·.name = name) with
    | none => rfl
    | some j => exact hlast j

theorem queue (h : Recalls name jobs slots) {now : Instant} {fired : List (String × Instant)}
    (hdue : fired.Sublist (dueSlots jobs now)) :
    Recalls name (jobs.map (markedBy fired)) (slots ++ slotsOf name fired) where
  sorted := h.sorted.map fun j => (j.markedBy_definition fired).1
  last := by
    have hkept (j : JobRecord) : (j.markedBy fired).name = j.name :=
      (j.markedBy_definition fired).1
    rw [find?_map_of_key (k := JobRecord.name) hkept, List.getLast?_append, ← h.last]
    cases hfind : jobs.find? (·.name = name) with
    | none =>
        have hnone : slotsOf name fired = [] := by
          rw [List.eq_nil_iff_forall_not_mem]
          intro slot hslot
          obtain ⟨j, hj, hname, -⟩ :=
            JobRecord.mem_dueSlots.mp (hdue.subset (JobRecord.mem_slotsOf.mp hslot))
          exact List.find?_eq_none.mp hfind j hj (decide_eq_true hname)
        rw [hnone]
        rfl
    | some j =>
        have hname : j.name = name := by simpa using List.find?_some hfind
        exact hname ▸ j.markedBy_lastFiredSlot fired

theorem call (h : Recalls name store.jobs slots) {c : Call} (hc : c.Spares name) :
    Recalls name (store.answer c).2.jobs slots where
  sorted := Memory.answer_sorted h.sorted c
  last := by
    have hkept : JobRecord.keptOf name (store.answer c).2.jobs =
        JobRecord.keptOf name store.jobs := by
      rw [Memory.keptOf_answer]
      cases c with
      | saveJob | recordFired => exact if_neg hc
      | _ => rfl
    have hlast (jobs : List JobRecord) : (jobs.find? (·.name = name)).bind (·.lastFiredSlot) =
        (JobRecord.keptOf name jobs).bind (·.2) := by
      rw [JobRecord.keptOf]
      cases jobs.find? (·.name = name) <;> rfl
    rw [hlast, hkept, ← hlast, h.last]

end Recalls

/-! ## The mark of a removed job -/

/-- The stored job of a name is removed, and the slot that fired last is still noted. -/
structure Buried (name : String) (last : Option Instant) (jobs : List JobRecord) : Prop where
  sorted : Sorted jobs
  record : ∃ j, jobs.find? (·.name = name) = some j ∧ j.removed = true ∧ j.lastFiredSlot = last

namespace Buried

variable {last : Option Instant}

theorem inactive (h : Buried name last jobs) : ∀ j ∈ jobs, j.isActive = true → j.name ≠ name := by
  rintro j hj hactive rfl
  obtain ⟨record, hfind, hremoved, -⟩ := h.record
  rw [find?_key_of_mem h.sorted.names hj] at hfind
  obtain rfl := Option.some.inj hfind
  rw [JobRecord.isActive, hremoved] at hactive
  cases hactive

theorem not_due (h : Buried name last jobs) (now : Instant) :
    ∀ p ∈ dueSlots jobs now, p.1 ≠ name := by
  intro p hp
  obtain ⟨j, hj, hname, hactive, -⟩ := JobRecord.mem_dueSlots.mp hp
  exact hname ▸ h.inactive j hj hactive

theorem put (h : Buried name last jobs) {job : JobRecord} (hne : job.name ≠ name) :
    Buried name last (Memory.putJob job jobs) where
  sorted := Memory.putJob_sorted h.sorted job
  record := by
    rw [Memory.find?_putJob, if_neg hne]
    exact h.record

theorem map (h : Buried name last jobs) {g : JobRecord → JobRecord}
    (hname : ∀ j, (g j).name = j.name)
    (hg : ∀ j, j.name = name → g j = j ∨ g j = j.markRemoved) : Buried name last (jobs.map g) where
  sorted := h.sorted.map hname
  record := by
    obtain ⟨j, hfind, hremoved, hlast⟩ := h.record
    rw [find?_map_of_key (k := JobRecord.name) hname, hfind]
    refine ⟨g j, rfl, ?_⟩
    rcases hg j (by simpa using List.find?_some hfind) with hsame | hmarked
    · rw [hsame]
      exact ⟨hremoved, hlast⟩
    · rw [hmarked]
      exact ⟨rfl, hlast⟩

theorem call (h : Buried name last store.jobs) {c : Call} (hc : c.Spares name) :
    Buried name last (store.answer c).2.jobs := by
  cases c with
  | saveJob job => exact h.put hc
  | removeJob job =>
      change Buried name last (store.removeJob job).2.jobs
      rw [Table.memory_removeJob h.sorted]
      refine h.map (fun j => ?_) fun j _ => ?_
      · split <;> rfl
      · split
        · exact .inr rfl
        · exact .inl rfl
  | recordFired job slot =>
      refine h.map (fun j => ?_) fun j hj => ?_
      · dsimp only
        split <;> rfl
      · exact .inl (if_neg fun heq => hc (heq.symm.trans hj))
  | loadJobs => exact h
  | _ =>
      rw [Memory.answer_jobs store rfl]
      exact h

end Buried

/-! ## What the schedulers find -/

namespace Scheduler

variable {last : Option Instant}

theorem removeJob_reply (name : String) (store : Memory) (s : Scheduler) :
    ((removeJob name).run Memory.answer store s).1 = .ok (store.removeJob name).1 := by
  rw [removeJob_run]
  rfl

/-- What every scheduler finds of a job that is removed, whatever it keeps itself. -/
structure Retired (name : String) (last : Option Instant) (store : Memory) : Prop where
  /-- A tick does not attempt the job, and leaves all messages in front of those of other jobs. -/
  ticked : ∀ (s : Scheduler) (now stamp : Instant) (draw : Nat → MessageId),
    let after := (tick now stamp draw).run Memory.answer store s
    attempts name s after.2.2 = [] ∧ ∃ added, after.2.1.messages = store.messages ++ added ∧
      ∀ m ∈ added, ∃ key, m.job = some key ∧ key.name ≠ name
  listed : ∀ s : Scheduler, ∃ jobs, (activeJobs.run Memory.answer store s).1 = .ok jobs ∧
    ∀ j ∈ jobs, j.name ≠ name
  again : ∀ s : Scheduler,
    (removeJob name).run Memory.answer store s = (.ok false, store, s.dropLocal name)
  /-- What becomes of messages has nothing to do with the stored jobs. -/
  messages : ∀ {c : Call} (jobs : List JobRecord), c.isJobCall = false →
    ({ store with jobs } : Memory).answer c =
      ((store.answer c).1, { (store.answer c).2 with jobs })
  /-- An addition that is not refused for what it is given makes the job active once more, and goes
  on from the slot that fired last. -/
  added : ∀ (s : Scheduler) (cron : String) (factory : PayloadFactory) (window : Option Duration)
    (now : Instant),
    let after := (addJob name cron factory window now).run Memory.answer store s
    ((Text.trim name.toList).isEmpty = true ∨ ∃ fault, Cron.Schedule.parse cron = .error fault) ∧
        (∃ e, after = (.error e, store, s)) ∨
      after.1 = .ok s.handles ∧ ∃ j kept, after.2.1.jobs.find? (·.name = name) = some j ∧
        j.isActive = true ∧ j.lastFiredSlot = last ∧ after.2.2.find? name = some kept ∧
        kept.handle = s.handles ∧ kept.lastFiredSlot = last

theorem keepLocal_kept (name : String) (factory : PayloadFactory) (last : Option Instant)
    (s : Scheduler) :
    (s.keepLocal name factory last).find? name = some ⟨name, factory, s.handles, last⟩ := by
  have hgone := dropLocal_gone name s
  rw [find?] at hgone
  rw [find?, keepLocal, List.find?_append, hgone]
  simp

/-- An addition is refused for its name or its expression, or has put a record that keeps the slot
last fired. -/
theorem addJob_cases (hlast : (store.jobs.find? (·.name = name)).bind (·.lastFiredSlot) = last)
    (cron : String) (factory : PayloadFactory) (window : Option Duration) (now : Instant)
    (s : Scheduler) :
    let after := (addJob name cron factory window now).run Memory.answer store s
    ((Text.trim name.toList).isEmpty = true ∨ ∃ fault, Cron.Schedule.parse cron = .error fault) ∧
        (∃ e, after = (.error e, store, s)) ∨
      ∃ record : JobRecord, record.name = name ∧ record.isActive = true ∧
        record.lastFiredSlot = last ∧ after = (.ok s.handles,
          { store with jobs := Memory.putJob record store.jobs },
          s.keepLocal name factory last) := by
  subst hlast
  unfold addJob
  split
  · rename_i hblank
    exact .inl ⟨.inl hblank, _, rfl⟩
  · split
    · rename_i fault hfault
      exact .inl ⟨.inr ⟨fault, hfault⟩, _, rfl⟩
    · exact .inr ⟨_, rfl, rfl, rfl, rfl⟩

theorem tick_buried (h : Buried name last store.jobs) (s : Scheduler) (now stamp : Instant)
    (draw : Nat → MessageId) :
    let after := (tick now stamp draw).run Memory.answer store s
    attempts name s after.2.2 = [] ∧ ∃ added, after.2.1.messages = store.messages ++ added ∧
      ∀ m ∈ added, ∃ key, m.job = some key ∧ key.name ≠ name := by
  intro after
  have hload : (store.answer .loadJobs).1 = .ok store.jobs := rfl
  obtain ⟨events, hsends, -⟩ := tick_sends hload h.sorted.names now stamp draw s
  obtain ⟨made, hticked⟩ := tick_ticked h.sorted now stamp draw s
  obtain ⟨added, hadded, hkeys⟩ := hticked.keys
  refine ⟨?_, added, hadded, fun m hm => ?_⟩
  · rw [attempts_eq hsends]
    refine hsends.filter_eq_nil fun hmem => ?_
    obtain ⟨p, hp, hname⟩ := List.mem_map.mp hmem
    exact h.not_due now p hp hname
  · obtain ⟨p, hp, hkey⟩ := hkeys m hm
    exact ⟨_, hkey, h.not_due now p hp⟩

theorem Retired.of_buried (h : Buried name last store.jobs) : Retired name last store where
  ticked := tick_buried h
  listed s := ⟨_, rfl, fun j hj => h.inactive j (List.mem_filter.mp hj).1 (List.mem_filter.mp hj).2⟩
  again s := by
    obtain ⟨j, hfind, hremoved, -⟩ := h.record
    have hfalse : store.removeJob name = (false, store) := by
      rw [Memory.removeJob, hfind]
      simp [JobRecord.isActive, hremoved]
    rw [removeJob_run]
    simp only [Memory.answer, hfalse]
    rfl
  messages jobs hc := store.answer_beside jobs hc
  added s cron factory window now := by
    intro after
    obtain ⟨j, hfind, -, hj⟩ := h.record
    have hlast : (store.jobs.find? (·.name = name)).bind (·.lastFiredSlot) = last := by
      rw [hfind]
      exact hj
    refine (addJob_cases hlast cron factory window now s).imp_right ?_
    rintro ⟨record, hname, hactive, hrecord, hafter⟩
    have hafter : after = (.ok s.handles, { store with jobs := Memory.putJob record store.jobs },
      s.keepLocal name factory last) := hafter
    rw [hafter]
    refine ⟨rfl, record, _, ?_, hactive, hrecord, keepLocal_kept name factory last s, rfl, rfl⟩
    exact (Memory.find?_putJob record store.jobs name).trans (if_pos hname)

end Scheduler

/-! ## Every run -/

namespace Fleet

variable {f f' before : Fleet} {last : Option Instant} {allowed : String → String → Prop}

/-- A step, a clock that is set to any time, or a call from elsewhere that neither saves nor fires a
job of the name. -/
inductive Turn (name : String) (allowed : String → String → Prop) (f : Fleet) : Fleet → Prop
  | set (now : Instant) : Turn name allowed f { f with clock := now }
  | step {f' : Fleet} (step : Step allowed f f') : Turn name allowed f f'
  | call {c : Call} (spares : c.Spares name) :
      Turn name allowed f { f with store := (f.store.answer c).2 }

/-- The fleets that turns lead to, with additions that are allowed. -/
abbrev Runs (name : String) (allowed : String → String → Prop) : Fleet → Fleet → Prop :=
  Relation.ReflTransGen (Turn name allowed)

theorem Turn.recalls (h : Turn name allowed f f') (hf : Recalls name f.store.jobs (f.slots name)) :
    Recalls name f'.store.jobs (f'.slots name) := by
  cases h with
  | set => exact hf
  | call hspares => exact hf.call hspares
  | step hstep =>
      obtain ⟨events, hevents, hchange⟩ := hstep.changes hf.sorted
      rw [slots_append hevents]
      generalize f'.store.jobs = jobs at hchange ⊢
      cases hchange with
      | none =>
          rw [slots_quiet]
          exact hf
      | ticked hnamed hdue => exact hf.queue hdue
      | added hallow hlast =>
          rw [slots_quiet]
          exact hf.put hlast
      | removed job =>
          rw [slots_quiet]
          refine hf.map (fun j => ?_) fun j => ?_ <;> split <;> rfl

theorem Runs.recalls {schedulers : List Scheduler} {clock : Instant}
    (h : Runs name allowed (start schedulers clock) f) :
    Recalls name f.store.jobs (f.slots name) := by
  induction h with
  | refl => exact ⟨.nil, rfl⟩
  | tail _ hturn ih => exact hturn.recalls ih

/-- The job is removed, and no event told of it since a fleet before. -/
structure Silenced (name : String) (last : Option Instant) (before f : Fleet) : Prop where
  buried : Buried name last f.store.jobs
  events : f.events.filter (·.job = name) = before.events.filter (·.job = name)

theorem Turn.silenced (h : Turn name (fun job _ => job ≠ name) f f')
    (hf : Silenced name last before f) : Silenced name last before f' := by
  cases h with
  | set => exact ⟨hf.buried, hf.events⟩
  | call hspares => exact ⟨hf.buried.call hspares, hf.events⟩
  | step hstep =>
      obtain ⟨events, hevents, hchange⟩ := hstep.changes hf.buried.sorted
      suffices hjobs : Buried name last f'.store.jobs ∧ ∀ e ∈ events, e.job ≠ name by
        have hnone : events.filter (·.job = name) = [] := by
          simpa [List.filter_eq_nil_iff] using hjobs.2
        refine ⟨hjobs.1, ?_⟩
        rw [hevents, List.filter_append, hf.events, hnone, List.append_nil]
      generalize f'.store.jobs = jobs at hchange ⊢
      cases hchange with
      | none => exact ⟨hf.buried, by simp⟩
      | ticked hnamed hdue =>
          have hothers := hf.buried.not_due f.clock
          refine ⟨hf.buried.map (fun j => (j.markedBy_definition _).1) fun j hj => .inl ?_, ?_⟩
          · exact JobRecord.markedBy_others fun p hp => hj ▸ hothers p (hdue.subset hp)
          · intro e he
            obtain ⟨p, hp, hname⟩ := List.mem_map.mp (hnamed e he)
            exact hname ▸ hothers p hp
      | added hallow => exact ⟨hf.buried.put hallow, by simp⟩
      | removed job =>
          refine ⟨hf.buried.map (fun j => ?_) fun j _ => ?_, by simp⟩
          · split <;> rfl
          · split
            · exact .inr rfl
            · exact .inl rfl

theorem Runs.silenced (h : Runs name (fun job _ => job ≠ name) f f')
    (hf : Silenced name last before f) : Silenced name last before f' := by
  induction h with
  | refl => exact hf
  | tail _ hturn ih => exact hturn.silenced ih

/-! ## After a removal -/

theorem buried_removeJob (h : Recalls name store.jobs slots)
    (hremoved : (store.removeJob name).1 = true) :
    Buried name slots.getLast? (store.removeJob name).2.jobs := by
  rw [Table.memory_removeJob h.sorted] at hremoved ⊢
  obtain ⟨j, hj, hnamed⟩ := List.any_eq_true.mp hremoved
  have hname : j.name = name := of_decide_eq_true (Bool.and_eq_true_iff.mp hnamed).1
  have hfind := find?_key_of_mem h.sorted.names hj
  have hlast := h.last
  rw [hname] at hfind
  rw [hfind] at hlast
  have hkept (j : JobRecord) :
      (if Table.isNamed name j then j.markRemoved else j).name = j.name := by
    split <;> rfl
  refine ⟨h.sorted.map hkept, j.markRemoved, ?_, rfl, hlast⟩
  rw [find?_map_of_key (k := JobRecord.name) hkept, hfind, Option.map_some, if_pos hnamed]

theorem act_removeJob {i : Nat} {s : Scheduler} (h : f.schedulers[i]? = some s) (name : String) :
    f.act i (Scheduler.removeJob name) = { f with
      store := (f.store.removeJob name).2
      schedulers := f.schedulers.set i (s.dropLocal name) } := by
  have hquiet : f.events ++ (s.dropLocal name).events.pending.drop s.events.pending.length =
      f.events := by
    rw [Scheduler.dropLocal, List.drop_length, List.append_nil]
  rw [act, h]
  simp only [Scheduler.removeJob_run, Memory.answer, hquiet]

/-- After a removal has told that it removed the job, and until it is added once more, nothing fires
it: every scheduler finds it removed, and its messages are as they would be otherwise. An addition
goes on from the slot that was queued last before the removal. -/
theorem removal_lasts {schedulers : List Scheduler} {clock : Instant} {i : Nat} {s : Scheduler}
    (hrun : Runs name (fun _ _ => True) (start schedulers clock) before)
    (hs : before.schedulers[i]? = some s)
    (hremoved : ((Scheduler.removeJob name).run Memory.answer before.store s).1 = .ok true)
    (hlater : Runs name (fun job _ => job ≠ name) (before.act i (Scheduler.removeJob name)) f) :
    (before.act i (Scheduler.removeJob name)).store.messages = before.store.messages ∧
      f.events.filter (·.job = name) = before.events.filter (·.job = name) ∧
      Scheduler.Retired name (before.slots name).getLast? f.store := by
  have hrecalls := Runs.recalls hrun
  have hanswer : (before.store.removeJob name).1 = true := by
    rw [Scheduler.removeJob_reply] at hremoved
    exact Except.ok.inj hremoved
  have hburied := buried_removeJob hrecalls hanswer
  have hmessages : (before.store.removeJob name).2.messages = before.store.messages := by
    rw [Table.memory_removeJob hrecalls.sorted]
  rw [act_removeJob hs] at hlater ⊢
  have hsilenced : Silenced name (before.slots name).getLast? before f :=
    Runs.silenced hlater ⟨hburied, rfl⟩
  exact ⟨hmessages, hsilenced.events, .of_buried hsilenced.buried⟩

/-- The second scheduler keeps a running job that the first one removes, and its next tick finds
nothing due. -/
theorem removal_lasts_elsewhere :
    let report : PayloadFactory := fun _ => .ok { payload := [1] }
    let add (f : Fleet) (i : Nat) : Fleet :=
      f.act i (Scheduler.addJob "report" "0 * * * * *" report none f.clock)
    let tick (f : Fleet) (i n : Nat) : Fleet :=
      f.act i (Scheduler.tick f.clock .epoch fun _ => ⟨.ofNat n⟩)
    let added := add (add (start [.make 8, .make 8] ⟨30, 0, by decide⟩) 0) 1
    let fired := tick { added with clock := ⟨60, 0, by decide⟩ } 0 1
    let removed := fired.act 0 (Scheduler.removeJob "report")
    let later := tick { removed with clock := ⟨120, 0, by decide⟩ } 1 2
    (later.schedulers.map fun s => (s.candidate? "report" ⟨120, 0, by decide⟩).isSome) =
        [false, true] ∧
      later.store.messages.map (·.id) = [⟨.ofNat 1⟩] ∧
      later.events.filter (·.job = "report") = fired.events.filter (·.job = "report") ∧
      Scheduler.Retired "report" (some ⟨60, 0, by decide⟩) later.store := by
  intro report add tick added fired removed later
  have hadd {f f' : Fleet} (h : Runs "report" (fun _ _ => True) f f') (i : Nat) :
      Runs "report" (fun _ _ => True) f (add f' i) :=
    h.tail (.step (.add i trivial report none))
  have htick {allowed : String → String → Prop} {f f' : Fleet} (h : Runs "report" allowed f f')
      (i n : Nat) (now : Instant) :
      Runs "report" allowed f (tick { f' with clock := now } i n) :=
    (h.tail (.set now)).tail (.step (.tick i .epoch _))
  have hfired : Runs "report" (fun _ _ => True)
      (start [.make 8, .make 8] ⟨30, 0, by decide⟩) fired :=
    htick (hadd (hadd .refl 0) 1) 0 1 _
  obtain ⟨s, hs⟩ : ∃ s, fired.schedulers[0]? = some s :=
    Option.isSome_iff_exists.mp (by decide +kernel)
  have hanswer : (fired.store.removeJob "report").1 = true := by decide +kernel
  have hremoved := (Scheduler.removeJob_reply "report" fired.store s).trans
    (congrArg Except.ok hanswer)
  have hslots : (fired.slots "report").getLast? = some ⟨60, 0, by decide⟩ := by decide +kernel
  obtain ⟨-, hevents, hretired⟩ := removal_lasts hfired hs hremoved (htick .refl 1 2 _)
  rw [hslots] at hretired
  exact ⟨by decide +kernel, by decide +kernel, hevents, hretired⟩

end Fleet

end WorkQueue
