import Mathlib
import WorkQueue.Proofs.Scheduler.Attempts
import WorkQueue.Proofs.Store.Failure

/-! # Changes of definitions that fail

A scheduler adds and removes jobs by calls that a store may refuse. An addition changes the
scheduler after its last call only, so one that fails has changed nothing. A removal forgets the job
before its call: if the call fails, the store has the job as before, and the scheduler has lost it.
-/

namespace WorkQueue

/-- Calls on jobs that fail leave what is stored as it was, and so does loading the jobs. -/
structure Steady {σ κ : Type} (answer : σ → (c : Call) → c.Reply × σ) (stored : σ → κ) : Prop where
  failed : ∀ {store : σ} {c : Call} {e : StoreError}, c.isJobCall = true →
    (answer store c).1 = .error e → stored (answer store c).2 = stored store
  loaded : ∀ store : σ, stored (answer store .loadJobs).2 = stored store

namespace Backend

theorem failed_jobCall {b : Backend} {c : Call} {e : StoreError} (hjob : c.isJobCall = true)
    (h : (b.answer c).1 = .error e) : (b.answer c).2 = b := by
  cases b with
  | memory store =>
      cases c with
      | saveJob | loadJobs | removeJob | recordFired => cases h
      | _ => cases hjob
  | table t =>
      have hsame : (t.answer c).2 = t := by
        refine (Table.failed_unchanged h).1 fun t' hstrands => ?_
        cases hstrands
        cases hjob
      exact congrArg Backend.table hsame

end Backend

namespace FaultyStore

theorem answer_jobCall (s : FaultyStore) {c : Call} (hjob : c.isJobCall = true) :
    s.answer c = if s.failing.contains c.name then (.error (.unavailable (.injected c.name)), s)
      else ((s.backend.answer c).1, { s with backend := (s.backend.answer c).2 }) := by
  cases c with
  | saveJob | loadJobs | removeJob | recordFired => rfl
  | _ => cases hjob

theorem steady : Steady answer id where
  failed := by
    intro s c e hjob h
    rw [s.answer_jobCall hjob] at h ⊢
    by_cases hfails : s.failing.contains c.name = true
    · rw [if_pos hfails]
    · rw [if_neg hfails] at h ⊢
      rw [Backend.failed_jobCall hjob h]
  loaded := by
    intro s
    rw [s.answer_jobCall rfl]
    split
    · rfl
    · rw [s.backend.answer_loadJobs]

end FaultyStore

namespace Scheduler

variable {σ κ : Type} {answer : σ → (c : Call) → c.Reply × σ} {stored : σ → κ} {store : σ}
  {s s' : Scheduler} {name : String} {e : QueueError}

/-! ## A failed addition -/

/-- The last call of an addition is its only change of the store, and the scheduler keeps the job
after it. -/
theorem addJob_failed (h : Steady answer stored) {cron : String} {factory : PayloadFactory}
    {window : Option Duration} {now : Instant}
    (hfailed : ((addJob name cron factory window now).run answer store s).1 = .error e) :
    stored ((addJob name cron factory window now).run answer store s).2.1 = stored store ∧
      ((addJob name cron factory window now).run answer store s).2.2 = s := by
  revert hfailed
  unfold addJob
  split
  · exact fun _ => ⟨rfl, rfl⟩
  · split
    · exact fun _ => ⟨rfl, rfl⟩
    · rw [Procedure.run_bind, Procedure.run_ask]
      dsimp only
      cases (answer store .loadJobs).1 with
      | error e => exact fun _ => ⟨h.loaded store, rfl⟩
      | ok jobs =>
          dsimp only
          rw [Procedure.run_bind, Procedure.run_ask]
          dsimp only
          cases hsave : (answer (answer store .loadJobs).2 (.saveJob _)).1 with
          | error e => exact fun _ => ⟨(h.failed rfl hsave).trans (h.loaded store), rfl⟩
          | ok value =>
              intro hfailed
              cases hfailed

/-! ## A failed removal -/

/-- A scheduler has lost one job, and whoever has its handle sees it stopped. -/
structure Forgets (name : String) (s s' : Scheduler) : Prop where
  gone : s'.find? name = none
  others : ∀ other ≠ name, s'.find? other = s.find? other
  stopped : ∀ handle, s'.isStopped handle = true ↔
    s.isStopped handle = true ∨ ∃ j, s.find? name = some j ∧ j.handle = handle
  /-- No tick attempts the job, whatever the store holds by then. -/
  silent : ∀ {σ : Type} (answer : σ → (c : Call) → c.Reply × σ) (store : σ) (now stamp : Instant)
    (draw : Nat → MessageId), attempts name s' ((tick now stamp draw).run answer store s').2.2 = []
  same : s' = s ↔ s.find? name = none

theorem dropLocal_gone (name : String) (s : Scheduler) : (s.dropLocal name).find? name = none := by
  rw [find?, dropLocal, List.find?_eq_none]
  intro j hj
  have hne := (List.mem_filter.mp hj).2
  simpa using hne

theorem dropLocal_others {other : String} (hne : other ≠ name) (s : Scheduler) :
    (s.dropLocal name).find? other = s.find? other := by
  rw [find?, dropLocal, List.find?_filter, find?]
  congr 1
  funext j
  by_cases hj : j.name = other
  · simp [hj, hne]
  · simp [hj]

theorem dropLocal_stopped (name : String) (s : Scheduler) (handle : Nat) :
    (s.dropLocal name).isStopped handle = true ↔
      s.isStopped handle = true ∨ ∃ j, s.find? name = some j ∧ j.handle = handle := by
  rw [isStopped, isStopped, dropLocal]
  cases s.find? name with
  | none => simp
  | some j =>
      have hsome : (∃ a, some j = some a ∧ a.handle = handle) ↔ handle = j.handle := by
        simp [eq_comm]
      rw [hsome, or_comm]
      simp

theorem dropLocal_same (name : String) (s : Scheduler) :
    s.dropLocal name = s ↔ s.find? name = none := by
  constructor
  · intro hsame
    rw [← hsame, dropLocal_gone]
  · intro hnone
    have hkept : s.jobs.filter (·.name ≠ name) = s.jobs := by
      rw [List.filter_eq_self]
      intro j hj
      simpa using List.find?_eq_none.mp hnone j hj
    rw [dropLocal, hkept, hnone]
    rfl

theorem candidate?_gone (h : s.find? name = none) (slot : Instant) :
    s.candidate? name slot = none := by
  rw [candidate?, h]

theorem fire_none {slot : Instant} (h : s.candidate? name slot = none) (now stamp : Instant)
    (id : MessageId) : (fire now stamp id name slot).run answer store s = (false, store, s) := by
  rw [fire, Procedure.run_bind, Procedure.run_read]
  dsimp only
  rw [h]
  rfl

theorem fireEach_silent (now stamp : Instant) (draw : Nat → MessageId)
    {due : List (String × Instant)} (drawn count : Nat) (store : σ) (s : Scheduler)
    (hnone : ∀ slot, s.candidate? name slot = none) :
    ∃ events, ((fireEach now stamp draw due drawn count).run answer store s).2.2.events.pending =
      s.events.pending ++ events ∧ ∀ e ∈ events, e.job ≠ name := by
  induction due generalizing drawn count store s with
  | nil => exact ⟨[], (List.append_nil _).symm, by simp⟩
  | cons p due ih =>
      rw [fireEach, Procedure.run_bind]
      by_cases hp : p.1 = name
      · rw [fire_none (hp ▸ hnone p.2)]
        exact ih _ _ store s hnone
      · obtain ⟨first, hsends, -⟩ := fire_sends answer now stamp (draw drawn) p.1 p.2 store s
        have hothers := hsends.others name (by simpa using Ne.symm hp)
        obtain ⟨later, hlater, hnamed⟩ :=
          ih (drawn + 1) _ _ _ fun slot => (hothers slot).trans (hnone slot)
        refine ⟨first ++ later, ?_, ?_⟩
        · rw [hlater, hsends.pending, List.append_assoc]
        · intro e he
          rcases List.mem_append.mp he with he | he
          · have hjob : e.job = p.1 := by simpa using hsends.named e he
            exact hjob.trans_ne hp
          · exact hnamed e he

theorem tick_silent (h : s.find? name = none) (answer : σ → (c : Call) → c.Reply × σ) (store : σ)
    (now stamp : Instant) (draw : Nat → MessageId) :
    attempts name s ((tick now stamp draw).run answer store s).2.2 = [] := by
  have hquiet : ∃ events, ((tick now stamp draw).run answer store s).2.2.events.pending =
      s.events.pending ++ events ∧ ∀ e ∈ events, e.job ≠ name := by
    rw [tick, Procedure.run_bind, Procedure.run_ask]
    dsimp only
    cases (answer store .loadJobs).1 with
    | error e => exact ⟨[], (List.append_nil _).symm, by simp⟩
    | ok jobs =>
        dsimp only
        rw [Procedure.run_bind]
        exact fireEach_silent now stamp draw 0 0 _ s (candidate?_gone h)
  obtain ⟨events, hpending, hnamed⟩ := hquiet
  rw [attempts, hpending, List.drop_left, List.filter_eq_nil_iff]
  simpa using hnamed

theorem forgets_dropLocal (name : String) (s : Scheduler) : Forgets name s (s.dropLocal name) where
  gone := dropLocal_gone name s
  others _ hne := dropLocal_others hne s
  stopped := dropLocal_stopped name s
  silent := tick_silent (dropLocal_gone name s)
  same := dropLocal_same name s

/-- A removal has forgotten the job before it makes its only call. -/
theorem removeJob_run (name : String) (store : σ) (s : Scheduler) :
    (removeJob name).run answer store s =
      ((answer store (.removeJob name)).1.mapError QueueError.store,
        (answer store (.removeJob name)).2, s.dropLocal name) := by
  have hdrop : (Procedure.modify (dropLocal name)).run answer store s =
      (s, store, s.dropLocal name) := rfl
  rw [removeJob, Procedure.run_bind, hdrop, Procedure.run_bind, Procedure.run_ask]
  dsimp only
  cases (answer store (.removeJob name)).1 <;> rfl

theorem removeJob_failed (h : Steady answer stored)
    (hfailed : ((removeJob name).run answer store s).1 = .error e) :
    stored ((removeJob name).run answer store s).2.1 = stored store ∧
      Forgets name s ((removeJob name).run answer store s).2.2 := by
  rw [removeJob_run] at hfailed ⊢
  refine ⟨?_, forgets_dropLocal name s⟩
  cases hreply : (answer store (.removeJob name)).1 with
  | error e => exact h.failed rfl hreply
  | ok removed =>
      rw [hreply] at hfailed
      cases hfailed

/-! ## Both of them -/

/-- What a call that fails leaves behind: an addition everything as it was, a removal the store as
it was and a scheduler that has lost the job. -/
theorem failed_change (h : Steady answer stored) (store : σ) (s : Scheduler) (name : String)
    (e : QueueError) :
    (∀ (cron : String) (factory : PayloadFactory) (window : Option Duration) (now : Instant),
      let after := (addJob name cron factory window now).run answer store s
      after.1 = .error e → stored after.2.1 = stored store ∧ after.2.2 = s) ∧
      let after := (removeJob name).run answer store s
      after.1 = .error e → stored after.2.1 = stored store ∧ Forgets name s after.2.2 :=
  ⟨fun _ _ _ _ => addJob_failed h, removeJob_failed h⟩

/-- A job that is kept, in a store that refuses to save and to remove. -/
theorem failed_change_refused :
    let report : PayloadFactory := fun _ => .ok { payload := [1] }
    let add := addJob "report" "0 * * * * *" report none ⟨30, 0, by decide⟩
    let added := add.run FaultyStore.answer ⟨.memory .empty, [], false⟩ (.make 8)
    let store : FaultyStore := { added.2.1 with failing := ["save_job", "remove_job"] }
    let again := add.run FaultyStore.answer store added.2.2
    let removed := (removeJob "report").run FaultyStore.answer store added.2.2
    again.1 = .error (.store (.unavailable (.injected "save_job"))) ∧ again.2.1 = store ∧
      again.2.2 = added.2.2 ∧
      removed.1 = .error (.store (.unavailable (.injected "remove_job"))) ∧ removed.2.1 = store ∧
      Forgets "report" added.2.2 removed.2.2 := by
  intro report add added store again removed
  have hadd : again.1 = .error (.store (.unavailable (.injected "save_job"))) := by decide +kernel
  have hremove : removed.1 = .error (.store (.unavailable (.injected "remove_job"))) := by
    decide +kernel
  have hkept := (failed_change FaultyStore.steady store added.2.2 "report" _).1 "0 * * * * *"
    report none _ hadd
  have hlost := (failed_change FaultyStore.steady store added.2.2 "report" _).2 hremove
  exact ⟨hadd, hkept.1, hkept.2, hremove, hlost.1, hlost.2⟩

/-- The store still has the job, and its handle is stopped. -/
theorem not_forall_failed_change :
    ¬ ∀ (store : FaultyStore) (s : Scheduler) (name : String) (e : QueueError),
      let after := (removeJob name).run FaultyStore.answer store s
      after.1 = .error e → after.2.1 = store ∧ after.2.2.jobs = s.jobs ∧
        ∀ handle < s.handles, after.2.2.isStopped handle = s.isStopped handle := by
  intro hall
  let report : PayloadFactory := fun _ => .ok { payload := [1] }
  let added := (addJob "report" "0 * * * * *" report none ⟨30, 0, by decide⟩).run
    FaultyStore.answer ⟨.memory .empty, [], false⟩ (.make 8)
  let store : FaultyStore := { added.2.1 with failing := ["remove_job"] }
  have hfailed := hall store added.2.2 "report"
    (.store (.unavailable (.injected "remove_job"))) (by decide +kernel)
  have hstopped := hfailed.2.2 0 (by decide +kernel)
  revert hstopped
  decide +kernel

end Scheduler

end WorkQueue
