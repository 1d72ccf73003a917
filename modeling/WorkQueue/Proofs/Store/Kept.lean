import Mathlib
import WorkQueue.Proofs.Keyed
import WorkQueue.Proofs.Store.Roll

/-! # The job of one name

Memory keeps the job of a name as the calls record it. Of this, either kind of store keeps the
expression and the slot that fired last: saving the job and noting a slot write them, whatever was
there before, and loading reads them.
-/

namespace WorkQueue

/-- What is recorded of a job, after a call: the job as it was saved last, with the marks set on it
since. -/
def Call.recording (name : String) (kept : Option JobRecord) : Call → Option JobRecord
  | saveJob job => if job.name = name then some job else kept
  | removeJob job => kept.map fun j => if j.name = job then j.markRemoved else j
  | recordFired job slot => kept.map fun j => if j.name = job then j.markFired slot else j
  | _ => kept

/-- The expression and the last slot of the job of a name, after a call. -/
def Call.keeping (name : String) (kept : Option (String × Option Instant)) :
    Call → Option (String × Option Instant)
  | saveJob job => if job.name = name then some (job.cron, job.lastFiredSlot) else kept
  | recordFired job slot => if job = name then kept.map fun p => (p.1, some slot) else kept
  | _ => kept

/-- The expression and the last slot of the job of a name. -/
def JobRecord.keptOf (name : String) (jobs : List JobRecord) : Option (String × Option Instant) :=
  (jobs.find? (·.name = name)).map fun j => (j.cron, j.lastFiredSlot)

variable {name : String} {kept : Option (String × Option Instant)} {jobs : List JobRecord}

theorem Call.map_recording (c : Call) {recorded : Option JobRecord}
    (hname : ∀ j ∈ recorded, j.name = name) :
    (c.recording name recorded).map (fun j => (j.cron, j.lastFiredSlot)) =
      c.keeping name (recorded.map fun j => (j.cron, j.lastFiredSlot)) := by
  cases c with
  | saveJob job =>
      rw [recording, keeping]
      split <;> rfl
  | removeJob job =>
      cases recorded with
      | none => rfl
      | some j =>
          simp only [recording, keeping, Option.map_some]
          split <;> rfl
  | recordFired job slot =>
      cases recorded with
      | none => simp [recording, keeping]
      | some j =>
          obtain rfl := hname j rfl
          simp only [recording, keeping, Option.map_some, eq_comm (a := job)]
          split <;> rfl
  | _ => rfl

namespace Memory

theorem find?_putJob (job : JobRecord) (js : List JobRecord) (name : String) :
    (putJob job js).find? (·.name = name) =
      if job.name = name then some job else js.find? (·.name = name) := by
  induction js with
  | nil =>
      by_cases hname : job.name = name <;> simp [putJob, hname]
  | cons j js ih =>
      rw [putJob]
      by_cases heq : j.name = job.name
      · rw [if_pos heq]
        by_cases hname : job.name = name <;> simp [heq, hname]
      · rw [if_neg heq]
        split
        · by_cases hname : job.name = name <;> simp [hname]
        · rw [List.find?_cons, ih]
          by_cases hname : job.name = name
          · have hne : j.name ≠ name := fun h => heq (h.trans hname.symm)
            simp [hname, hne]
          · simp [hname, List.find?_cons]

theorem find?_removeJob (s : Memory) (job : String) :
    (s.removeJob job).2.jobs.find? (·.name = name) = (s.jobs.find? (·.name = name)).map fun j =>
      if j.name = job then j.markRemoved else j := by
  have hmarked : (s.modifyJob job (·.markRemoved)).jobs.find? (·.name = name) = _ :=
    find?_map_of_key (k := JobRecord.name) (fun j => by split <;> rfl) s.jobs name
  have hleft (h : ∀ j ∈ s.jobs.find? (·.name = job), j.markRemoved = j) :
      s.jobs.find? (·.name = name) = (s.jobs.find? (·.name = name)).map fun j =>
        if j.name = job then j.markRemoved else j := by
    cases hfind : s.jobs.find? (·.name = name) with
    | none => rfl
    | some j =>
        have hname : j.name = name := by simpa using List.find?_some hfind
        rw [Option.map_some]
        split
        · rename_i hjob
          obtain rfl := hname.symm.trans hjob
          rw [h j hfind]
        · rfl
  unfold removeJob
  split
  · rename_i hnone
    exact hleft fun j hj => by cases hnone.symm.trans hj
  · rename_i j hj
    split
    · exact hmarked
    · rename_i hinactive
      refine hleft fun a ha => ?_
      obtain rfl := Option.some.inj (hj.symm.trans ha)
      have hremoved : j.removed = true := by simpa [JobRecord.isActive] using hinactive
      rw [JobRecord.markRemoved, ← hremoved]

theorem find?_answer (s : Memory) (c : Call) :
    (s.answer c).2.jobs.find? (·.name = name) =
      c.recording name (s.jobs.find? (·.name = name)) := by
  cases c with
  | saveJob job => exact find?_putJob job s.jobs name
  | removeJob job => exact s.find?_removeJob job
  | recordFired job slot =>
      exact find?_map_of_key (k := JobRecord.name) (fun j => by split <;> rfl) s.jobs name
  | loadJobs => rfl
  | _ =>
      rw [answer_jobs s rfl]
      rfl

theorem keptOf_answer (s : Memory) (c : Call) :
    JobRecord.keptOf name (s.answer c).2.jobs = c.keeping name (JobRecord.keptOf name s.jobs) := by
  rw [JobRecord.keptOf, find?_answer, Call.map_recording]
  · rfl
  · intro j hj
    simpa using List.find?_some hj

end Memory

namespace Table

variable {t : Table}

theorem find?_putJob (row : JobRow) (rows : List JobRow) (name : String) :
    (putJob row rows).find? (·.name = some name) =
      if row.name = some name then some row else rows.find? (·.name = some name) := by
  induction rows with
  | nil => by_cases hname : row.name = some name <;> simp [putJob, hname]
  | cons r rows ih =>
      rw [putJob]
      by_cases heq : r.name = row.name
      · rw [if_pos heq]
        by_cases hname : row.name = some name <;> simp [heq, hname]
      · rw [if_neg heq, List.find?_cons, ih]
        by_cases hname : row.name = some name
        · have hne : r.name ≠ some name := fun h => heq (h.trans hname.symm)
          simp [hname, hne]
        · simp [hname, List.find?_cons]

/-- The row of the name, if there is one, has the expression and the slot. -/
def KeepsOf (t : Table) (name : String) (kept : Option (String × Option Instant)) : Prop :=
  ∃ rows, t.jobs = some rows ∧ (rows.find? (·.name = some name)).map
    (fun r => (r.cron, r.lastFiredSlot)) = kept.map fun p => (p.1, p.2.map Instant.column)

theorem KeepsOf.step (h : t.KeepsOf name kept) (c : Call) :
    (t.answer c).2.KeepsOf name (c.keeping name kept) := by
  obtain ⟨rows, hrows, hkept⟩ := h
  have hthere : t.jobRows = .ok rows := by rw [jobRows, hrows]
  cases c with
  | saveJob job =>
      simp only [answer, saveJob, hthere]
      refine ⟨_, rfl, ?_⟩
      rw [find?_putJob, Call.keeping]
      have hrow : (JobRow.ofRecord job).name = some name ↔ job.name = name := Option.some_inj
      by_cases hname : job.name = name
      · rw [if_pos hname, if_pos (hrow.mpr hname)]
        rfl
      · rw [if_neg hname, if_neg (mt hrow.mp hname)]
        exact hkept
  | removeJob job =>
      simp only [answer, removeJob, hthere]
      refine ⟨_, rfl, ?_⟩
      rw [find?_map_key (k := JobRow.name) (f := id), Option.map_id, id, hkept]
      · rfl
      · intro r
        split <;> rfl
      · intro r _
        split <;> rfl
  | recordFired job slot =>
      simp only [answer, recordFired, hthere]
      refine ⟨_, rfl, ?_⟩
      rw [Call.keeping]
      by_cases hname : job = name
      · rw [find?_map_key (k := JobRow.name) (f := fun p => (p.1, some slot.column)), hkept,
          if_pos hname]
        · cases kept <;> rfl
        · intro r
          split <;> rfl
        · intro r hr
          rw [if_pos (hr.trans (congrArg some hname.symm))]
      · rw [find?_map_key (k := JobRow.name) (f := id), Option.map_id, id, hkept, if_neg hname]
        · intro r
          split <;> rfl
        · intro r hr
          rw [if_neg fun h => hname (Option.some.inj (h.symm.trans hr))]
          rfl
  | loadJobs => exact ⟨rows, hrows, hkept⟩
  | _ =>
      rw [KeepsOf, answer_jobs t rfl]
      exact ⟨rows, hrows, hkept⟩

theorem readsNamed (r : JobRow) (j : JobRecord) (h : r.toRecord = .ok j) :
    decide (r.name = some name) = decide (j.name = name) := by
  rw [(toRecord_parts h).1]
  exact decide_eq_decide.mpr Option.some_inj

theorem KeepsOf.loaded (h : t.KeepsOf name kept) (hnames : t.NamesOnce)
    (hexact : ∀ p ∈ kept, ∀ slot ∈ p.2, slot.Exact) (hload : t.loadJobs = .ok jobs) :
    JobRecord.keptOf name jobs = kept := by
  obtain ⟨rows, hrows, hkept⟩ := h
  obtain ⟨rows', sorted, hrows', hsorted, hread⟩ := loadJobs_ok hload
  obtain rfl : rows = rows' := Option.some.inj (hrows.symm.trans hrows')
  rw [← find?_key_perm (k := JobRow.name) hsorted
    ((hsorted.map _).nodup_iff.mpr (hnames rows hrows)) (some name)] at hkept
  rcases find?_of_mapM (q := fun j => j.name = name) readsNamed hread with
    ⟨hnone, hnone'⟩ | ⟨r, j, hr, hj, hparts⟩
  · rw [hnone] at hkept
    rw [JobRecord.keptOf, hnone']
    exact (Option.map_eq_none_iff.mp hkept.symm).symm
  · obtain ⟨-, hcron, hlast⟩ := toRecord_parts hparts
    rw [hr] at hkept
    obtain ⟨⟨cron, last⟩, rfl, hpair⟩ := Option.map_eq_some_iff.mp hkept.symm
    obtain ⟨rfl, hcolumn⟩ := Prod.mk.inj hpair
    rw [← hcolumn, MessageRow.ofColumn?_exact (hexact _ rfl)] at hlast
    rw [JobRecord.keptOf, hj, Option.map_some, ← hcron, ← Except.ok.inj hlast]

end Table

namespace Backend

/-- The slot of a name that fired last, as it reads. -/
def lastSlot? : Backend → String → Option Instant
  | memory s, name => (s.jobs.find? (·.name = name)).bind (·.lastFiredSlot)
  | table t, name => ((t.jobs.getD []).find? (·.name = some name)).bind fun r =>
      (Instant.ofColumn? r.lastFiredSlot).toOption.join

/-- The job of the name, if there is one, has the expression and the slot. -/
def KeepsOf (name : String) (kept : Option (String × Option Instant)) : Backend → Prop
  | memory s => JobRecord.keptOf name s.jobs = kept
  | table t => t.KeepsOf name kept

variable {b : Backend}

theorem KeepsOf.start (hstart : b = .memory .empty ∨ b = .table .empty) (name : String) :
    b.KeepsOf name none := by
  rcases hstart with rfl | rfl
  · rfl
  · exact ⟨[], rfl, rfl⟩

theorem KeepsOf.step (h : b.KeepsOf name kept) (c : Call) :
    (b.answer c).2.KeepsOf name (c.keeping name kept) := by
  cases b with
  | memory s =>
      obtain rfl := h
      exact s.keptOf_answer c
  | table t => exact Table.KeepsOf.step h c

theorem KeepsOf.loaded (h : b.KeepsOf name kept) (hnames : b.NamesOnce)
    (hexact : ∀ p ∈ kept, ∀ slot ∈ p.2, slot.Exact) (hload : (b.answer .loadJobs).1 = .ok jobs) :
    JobRecord.keptOf name jobs = kept := by
  cases b with
  | memory s =>
      obtain rfl := Except.ok.inj hload
      exact h
  | table t => exact Table.KeepsOf.loaded h hnames hexact hload

theorem KeepsOf.lastSlot? (h : b.KeepsOf name kept)
    (hexact : ∀ p ∈ kept, ∀ slot ∈ p.2, slot.Exact) : b.lastSlot? name = kept.bind (·.2) := by
  cases b with
  | memory s =>
      obtain rfl := h
      rw [Backend.lastSlot?, JobRecord.keptOf, Option.bind_map]
      rfl
  | table t =>
      obtain ⟨rows, hrows, hkept⟩ := h
      rw [Backend.lastSlot?, hrows, Option.getD_some]
      cases hr : rows.find? (·.name = some name) with
      | none =>
          rw [hr] at hkept
          rw [Option.map_eq_none_iff.mp hkept.symm]
          rfl
      | some r =>
          rw [hr] at hkept
          obtain ⟨p, rfl, hpair⟩ := Option.map_eq_some_iff.mp hkept.symm
          obtain ⟨-, hcolumn⟩ := Prod.mk.inj hpair
          rw [Option.bind_some, ← hcolumn, MessageRow.ofColumn?_exact (hexact p rfl)]
          rfl

end Backend

end WorkQueue
