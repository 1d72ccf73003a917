import Mathlib
import WorkQueue.Proofs.Job.Window
import WorkQueue.Proofs.Store.Kept

/-! # Windows in a table

Memory keeps a job as it is recorded. A table keeps the whole milliseconds of its window in a word
of 64 bits with a sign, and the rest as it is. So a job that is loaded from a table is due as the
recorded one just if the window is such a number of milliseconds, or if neither the window nor what
is read of it is of any use.
-/

namespace WorkQueue

namespace Duration

variable {d : Duration}

/-- The window that is read from the column of a window. -/
def stored (d : Duration) : Duration := ofColumn d.column

/-- No schedule and no clock tell the window from what is read of it. -/
def Survives (d : Duration) : Prop := d.WholeMillis ∨ ¬ d.Useful ∧ ¬ d.stored.Useful

instance (d : Duration) : Decidable d.Survives := inferInstanceAs (Decidable (_ ∨ _))

end Duration

/-- What calls record of a job. -/
def Call.recorded (name : String) (calls : List Call) : Option JobRecord :=
  calls.foldl (fun kept c => c.recording name kept) none

/-- The job as it is read from its row. -/
def JobRecord.stored (j : JobRecord) : JobRecord := { j with window := j.window.map (·.stored) }

theorem JobRecord.stored_make (name cron : String) (d : Duration) (now : Instant) :
    (make name cron (some d) now).stored = make name cron (some d.stored) now := by
  simp only [make, stored, Option.map_some, Option.isSome_some]

theorem JobRecord.dueSlot?_stored {j : JobRecord} {s : Cron.Schedule} {now : Instant}
    (hs : s.fields.Ordered) (h : ∀ d ∈ j.window, d.Survives) :
    j.stored.dueSlot? s now = j.dueSlot? s now := by
  obtain ⟨name, cron, lastFiredSlot, window, windowPending, armedAt, removed⟩ := j
  cases window with
  | none => rfl
  | some d =>
      rcases h d rfl with hwhole | ⟨huseless, huseless'⟩
      · have hsame : d.stored = d := Duration.ofColumn_column hwhole
        rw [stored, Option.map_some, hsame]
      · exact dueSlot?_useless_congr (j := ⟨name, cron, _, none, _, _, _⟩) hs huseless' huseless

theorem JobRow.toRecord_exact {j : JobRecord} (hlast : ∀ t ∈ j.lastFiredSlot, t.Exact)
    (harmed : j.armedAt.Exact) : (ofRecord j).toRecord = .ok j.stored := by
  rw [toRecord_ofRecord, MessageRow.ofColumn?_exact hlast, ok_bind,
    Instant.ofColumn_column harmed.1, harmed.2, ok_bind, Option.map_map]
  rfl

namespace Table

open JobRow (ofRecord)

variable {t : Table} {name : String} {kept : Option JobRecord} {j : JobRecord}
  {jobs : List JobRecord}

/-- What is found under the name is the row of the job. -/
def Records (t : Table) (name : String) (kept : Option JobRecord) : Prop :=
  ∃ rows, t.jobs = some rows ∧ rows.find? (·.name = some name) = kept.map ofRecord

theorem find?_marked {rows : List JobRow} (h : rows.find? (·.name = some name) = kept.map ofRecord)
    {g : JobRow → JobRow} (hg : ∀ r, (g r).name = r.name) {mark : JobRecord → JobRecord}
    (hmark : ∀ j, g (ofRecord j) = ofRecord (mark j)) :
    (rows.map g).find? (·.name = some name) = (kept.map mark).map ofRecord := by
  rw [find?_map_of_key (k := JobRow.name) hg, h, Option.map_map, Option.map_map]
  exact congrArg (kept.map ·) (funext hmark)

theorem Records.step (h : t.Records name kept) (c : Call) :
    (t.answer c).2.Records name (c.recording name kept) := by
  obtain ⟨rows, hrows, hkept⟩ := h
  have hthere : t.jobRows = .ok rows := by rw [jobRows, hrows]
  cases c with
  | saveJob job =>
      simp only [answer, saveJob, hthere]
      refine ⟨_, rfl, ?_⟩
      rw [find?_putJob, Call.recording, hkept]
      have hrow : (ofRecord job).name = some name ↔ job.name = name := Option.some_inj
      by_cases hname : job.name = name
      · rw [if_pos hname, if_pos (hrow.mpr hname)]
        rfl
      · rw [if_neg hname, if_neg (mt hrow.mp hname)]
  | removeJob job =>
      simp only [answer, removeJob, hthere]
      refine ⟨_, rfl, find?_marked hkept (fun r => ?_) fun j => ?_⟩
      · split <;> rfl
      · cases hremoved : j.removed <;> by_cases hname : j.name = job <;>
          simp [ofRecord, JobRecord.markRemoved, hname, hremoved]
  | recordFired job slot =>
      simp only [answer, recordFired, hthere]
      refine ⟨_, rfl, find?_marked hkept (fun r => ?_) fun j => ?_⟩
      · split <;> rfl
      · by_cases hname : j.name = job <;> simp [ofRecord, JobRecord.markFired, hname]
  | loadJobs => exact ⟨rows, hrows, hkept⟩
  | _ =>
      rw [Records, answer_jobs t rfl]
      exact ⟨rows, hrows, hkept⟩

theorem Records.start (name : String) : Records .empty name none := ⟨[], rfl, rfl⟩

theorem Records.run (h : t.Records name kept) (calls : List Call) :
    (afterAll answer t calls).Records name
      (calls.foldl (fun kept c => c.recording name kept) kept) := by
  induction calls generalizing t kept with
  | nil => exact h
  | cons c calls ih => exact ih (h.step c)

theorem Records.loaded (h : t.Records name (some j)) (hnames : t.NamesOnce)
    (hlast : ∀ t ∈ j.lastFiredSlot, t.Exact) (harmed : j.armedAt.Exact)
    (hload : t.loadJobs = .ok jobs) : jobs.find? (·.name = name) = some j.stored := by
  obtain ⟨rows, hrows, hkept⟩ := h
  obtain ⟨rows', sorted, hrows', hsorted, hread⟩ := loadJobs_ok hload
  obtain rfl : rows = rows' := Option.some.inj (hrows.symm.trans hrows')
  rw [← find?_key_perm (k := JobRow.name) hsorted
    ((hsorted.map _).nodup_iff.mpr (hnames rows hrows)) (some name), Option.map_some] at hkept
  rcases find?_of_mapM (q := fun j => j.name = name) readsNamed hread with
    ⟨hnone, -⟩ | ⟨r, j', hr, hj', hparts⟩
  · cases hnone.symm.trans hkept
  · obtain rfl := Option.some.inj (hr.symm.trans hkept)
    rw [JobRow.toRecord_exact hlast harmed] at hparts
    rw [hj', ← Except.ok.inj hparts]

theorem NamesOnce.run (h : t.NamesOnce) (calls : List Call) :
    (afterAll answer t calls).NamesOnce := by
  induction calls generalizing t with
  | nil => exact h
  | cons c calls ih => exact ih (h.step c)

/-- A job that is recorded can be loaded, with what the column holds of its window. -/
theorem exists_stored {calls : List Call} (hdated : ∀ c ∈ calls, c.Dated)
    (hrecorded : Call.recorded name calls = some j) (hlast : ∀ t ∈ j.lastFiredSlot, t.Exact)
    (harmed : j.armedAt.Exact) :
    ∃ jobs, (afterAll answer .empty calls).loadJobs = .ok jobs ∧
      jobs.find? (·.name = name) = some j.stored := by
  obtain ⟨jobs, hload⟩ := (Legible.empty.run hdated).loadJobs
  have hnames : NamesOnce (afterAll answer .empty calls) :=
    NamesOnce.run (by rintro _ ⟨rfl⟩; exact List.nodup_nil) calls
  have hrecords := (Records.start name).run calls
  rw [← Call.recorded, hrecorded] at hrecords
  exact ⟨jobs, hload, hrecords.loaded hnames hlast harmed hload⟩

/-- Every job with the window, however it came to be recorded, is loaded with the slots that it is
due for. -/
def DueKept (window : Option Duration) : Prop :=
  ∀ (calls : List Call) (name : String) (j : JobRecord), (∀ c ∈ calls, c.Dated) →
    Call.recorded name calls = some j → j.window = window → (∀ t ∈ j.lastFiredSlot, t.Exact) →
    j.armedAt.Exact → ∃ jobs j', (afterAll answer .empty calls).loadJobs = .ok jobs ∧
      jobs.find? (·.name = name) = some j' ∧
      ∀ s, Cron.Schedule.parse j.cron = .ok s → ∀ now, j'.dueSlot? s now = j.dueSlot? s now

theorem DueKept.saved {window : Option Duration} {s : Cron.Schedule}
    (h : DueKept window) (hwindow : j.window = window) (hlast : ∀ t ∈ j.lastFiredSlot, t.Exact)
    (harmed : j.armedAt.Exact) (hparse : Cron.Schedule.parse j.cron = .ok s) (now : Instant) :
    j.stored.dueSlot? s now = j.dueSlot? s now := by
  have hdated : ∀ c ∈ [Call.saveJob j], c.Dated := by
    intro c hc
    obtain rfl := List.mem_singleton.mp hc
    refine ⟨fun t ht => ?_, by rintro _ ⟨⟩⟩
    rcases List.mem_append.mp ht with hslot | harm
    · exact (hlast t (Option.mem_toList.mp hslot)).1
    · exact List.mem_singleton.mp harm ▸ harmed.1
  have hrecorded : Call.recorded j.name [.saveJob j] = some j := if_pos rfl
  obtain ⟨jobs, hload, hstored⟩ := exists_stored hdated hrecorded hlast harmed
  obtain ⟨jobs', j', hload', hfound, hdue⟩ := h _ _ j hdated hrecorded hwindow hlast harmed
  obtain rfl := Except.ok.inj (hload.symm.trans hload')
  obtain rfl := Option.some.inj (hfound.symm.trans hstored)
  exact hdue s hparse now

theorem DueKept.survives {d : Duration} (h : DueKept (some d)) : d.Survives := by
  by_contra hno
  obtain ⟨hcut, huseful⟩ := not_or.mp hno
  have hne : d.stored ≠ d := mt Duration.ofColumn_column_iff.mp hcut
  have huseful : d.stored.Useful ∨ d.Useful := by
    rw [or_comm, or_iff_not_and_not]
    exact huseful
  obtain ⟨cron, s, now, hparse, hapart⟩ := JobRecord.exists_due_apart hne huseful
  have harmed : Instant.epoch.Exact := by decide
  have hsame := h.saved (j := JobRecord.make "once" cron (some d) .epoch) rfl
    (by rintro _ ⟨⟩) harmed hparse now
  rw [JobRecord.stored_make] at hsame
  exact hapart hsame

/-- A table keeps the slots that jobs are due for just if their window is a number of milliseconds
that its column holds, or if neither the window nor what is read of it is of any use. -/
theorem due_kept_iff (window : Option Duration) : DueKept window ↔ ∀ d ∈ window, d.Survives := by
  constructor
  · rintro h d rfl
    exact h.survives
  · rintro h calls name j hdated hrecorded rfl hlast harmed
    obtain ⟨jobs, hload, hfound⟩ := exists_stored hdated hrecorded hlast harmed
    exact ⟨jobs, _, hload, hfound, fun s hparse now =>
      JobRecord.dueSlot?_stored (Cron.Schedule.parse_ordered hparse) h⟩

/-- A window that is an hour longer than the column counts is read as an hour, and makes the job due
for the past full hour. -/
theorem not_forall_due_kept : ¬ ∀ window, DueKept window := by
  intro h
  let now : Instant := ⟨1772454600, 0, by decide⟩
  let window : Duration := ⟨18446744073713151, 616000000, by decide⟩
  let j := JobRecord.make "report" "0 0 * * * *" (some window) now
  have hrun : (Cron.Schedule.parse j.cron).toOption.map
      (fun s => (j.dueSlot? s now, j.stored.dueSlot? s now)) =
        some (none, some ⟨1772452800, 0, by decide⟩) := by decide +kernel
  obtain ⟨s, hparse, hslots⟩ := Cron.Schedule.exists_parsed hrun
  obtain ⟨hdue, hdue'⟩ := Prod.mk.inj hslots
  have hexact : now.Exact := by decide
  have hsame := (h j.window).saved rfl (by rintro _ ⟨⟩) hexact hparse now
  rw [hdue, hdue'] at hsame
  cases hsame

end Table

end WorkQueue
