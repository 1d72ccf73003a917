import Mathlib
import WorkQueue.Proofs.Store.Legible
import WorkQueue.Proofs.Store.Outcome
import WorkQueue.Store.Backend

/-! # The jobs that a store gives

Memory keeps its jobs in the order of their names and a table keeps one row of a name, whatever
calls are made, dated or not. So no two jobs that loading gives have the same name.
-/

namespace WorkQueue

theorem map_of_mapM {α β γ : Type} {f : α → Except StoreError β} {g : β → γ} {k : α → γ}
    (hf : ∀ a b, f a = .ok b → g b = k a) {xs : List α} {ys : List β}
    (h : xs.mapM f = .ok ys) : ys.map g = xs.map k := by
  induction xs generalizing ys with
  | nil =>
      obtain rfl := Except.ok.inj h
      rfl
  | cons a xs ih =>
      rw [List.mapM_cons] at h
      obtain ⟨b, hb, h⟩ := bind_eq_ok h
      obtain ⟨bs, hbs, h⟩ := bind_eq_ok h
      obtain rfl := Except.ok.inj h
      rw [List.map_cons, List.map_cons, hf a b hb, ih hbs]

theorem find?_of_mapM {α β : Type} {f : α → Except StoreError β} {p : α → Bool} {q : β → Bool}
    (hpq : ∀ a b, f a = .ok b → p a = q b) {xs : List α} {ys : List β} (h : xs.mapM f = .ok ys) :
    xs.find? p = none ∧ ys.find? q = none ∨
      ∃ a b, xs.find? p = some a ∧ ys.find? q = some b ∧ f a = .ok b := by
  induction xs generalizing ys with
  | nil =>
      obtain rfl := Except.ok.inj h
      exact .inl ⟨rfl, rfl⟩
  | cons a xs ih =>
      rw [List.mapM_cons] at h
      obtain ⟨b, hb, h⟩ := bind_eq_ok h
      obtain ⟨bs, hbs, h⟩ := bind_eq_ok h
      obtain rfl := Except.ok.inj h
      rw [List.find?_cons, List.find?_cons, ← hpq a b hb]
      cases p a with
      | true => exact .inr ⟨a, b, rfl, rfl, hb⟩
      | false => exact ih hbs

namespace Memory

theorem answer_sorted {s : Memory} (h : JobRecord.Sorted s.jobs) (c : Call) :
    JobRecord.Sorted (s.answer c).2.jobs := by
  cases c with
  | saveJob job => exact putJob_sorted h job
  | removeJob name =>
      change JobRecord.Sorted (s.removeJob name).2.jobs
      rw [Table.memory_removeJob h]
      exact h.map fun j => by split <;> rfl
  | recordFired name slot => exact h.map fun j => by dsimp only; split <;> rfl
  | loadJobs => exact h
  | _ =>
      rw [answer_jobs s rfl]
      exact h

end Memory

namespace Table

variable {t : Table} {c : Call}

theorem answer_jobs (t : Table) (h : c.isJobCall = false) : (t.answer c).2.jobs = t.jobs := by
  have houtcome := answer_outcome t c
  revert houtcome
  generalize (t.answer c).1 = r, (t.answer c).2 = t'
  intro houtcome
  cases houtcome with
  | jobs hjob => cases h.symm.trans hjob
  | _ => rfl

/-- No two rows of jobs have the same name. -/
def NamesOnce (t : Table) : Prop := ∀ rows ∈ t.jobs, (rows.map (·.name)).Nodup

theorem putJob_names {rows : List JobRow} (h : (rows.map (·.name)).Nodup) (row : JobRow) :
    ((putJob row rows).map (·.name)).Nodup := by
  induction rows with
  | nil => exact List.nodup_singleton _
  | cons r rows ih =>
      obtain ⟨hfirst, hrest⟩ := List.nodup_cons.mp h
      rw [putJob]
      split
      · rename_i heq
        have hnew : row.name ∉ rows.map (·.name) := heq ▸ hfirst
        exact List.nodup_cons.mpr ⟨hnew, hrest⟩
      · rename_i hne
        refine List.nodup_cons.mpr ⟨fun hmem => ?_, ih hrest⟩
        obtain ⟨a, ha, hname⟩ := List.mem_map.mp hmem
        rcases mem_putJob ha with rfl | ha
        · exact hne hname.symm
        · exact hfirst (List.mem_map.mpr ⟨a, ha, hname⟩)

theorem map_names {rows : List JobRow} {f : JobRow → JobRow} (hf : ∀ r, (f r).name = r.name) :
    (rows.map f).map (·.name) = rows.map (·.name) := by
  rw [List.map_map]
  exact List.map_congr_left fun r _ => hf r

theorem NamesOnce.step (h : t.NamesOnce) (c : Call) : (t.answer c).2.NamesOnce := by
  cases hjob : c.isJobCall with
  | false =>
      rw [NamesOnce, answer_jobs t hjob]
      exact h
  | true =>
      cases hrows : t.jobs with
      | none =>
          rw [answer_missing hrows hjob]
          exact h
      | some rows =>
          have hthere : t.jobRows = .ok rows := by rw [jobRows, hrows]
          have hnames := h rows hrows
          cases c with
          | saveJob job =>
              simp only [answer, saveJob, hthere]
              rintro _ ⟨rfl⟩
              exact putJob_names hnames _
          | removeJob name =>
              simp only [answer, removeJob, hthere]
              rintro _ ⟨rfl⟩
              rw [map_names fun r => by split <;> rfl]
              exact hnames
          | recordFired name slot =>
              simp only [answer, recordFired, hthere]
              rintro _ ⟨rfl⟩
              rw [map_names fun r => by split <;> rfl]
              exact hnames
          | loadJobs => exact h
          | _ => cases hjob

theorem placeByName_perm (row : JobRow) (rows : List JobRow) :
    (placeByName row rows).Perm (row :: rows) := by
  induction rows with
  | nil => exact .refl _
  | cons r rows ih =>
      have hplace : placeByName row (r :: rows) = row :: r :: rows ∨
          placeByName row (r :: rows) = r :: placeByName row rows := ite_eq_or_eq _ _ _
      rcases hplace with h | h
      · rw [h]
      · rw [h]
        exact (ih.cons r).trans (.swap row r rows)

theorem sorted_perm (rows sorted : List JobRow) :
    (rows.foldl (fun sorted r => placeByName r sorted) sorted).Perm (rows ++ sorted) := by
  induction rows generalizing sorted with
  | nil => exact .refl _
  | cons r rows ih =>
      exact (ih _).trans (((placeByName_perm r sorted).append_left rows).trans List.perm_middle)

theorem toRecord_parts {r : JobRow} {j : JobRecord} (h : r.toRecord = .ok j) :
    r.name = some j.name ∧ r.cron = j.cron ∧
      Instant.ofColumn? r.lastFiredSlot = .ok j.lastFiredSlot := by
  obtain ⟨cells, hcells, h⟩ := bind_eq_ok h
  unfold JobRow.decode at h
  obtain ⟨last, hlast, h⟩ := bind_eq_ok h
  obtain ⟨_, -, h⟩ := bind_eq_ok h
  obtain rfl := Except.ok.inj h
  refine ⟨?_, rfl, hlast⟩
  unfold JobRow.cells at hcells
  cases hname : r.name with
  | none =>
      rw [hname] at hcells
      cases hcells
  | some name =>
      rw [hname] at hcells
      dsimp only [ok_bind] at hcells
      repeat' split at hcells
      all_goals cases hcells
      all_goals rfl

theorem loadJobs_ok {jobs : List JobRecord} (h : t.loadJobs = .ok jobs) :
    ∃ rows sorted : List JobRow, t.jobs = some rows ∧ sorted.Perm rows ∧
      sorted.mapM JobRow.toRecord = .ok jobs := by
  unfold loadJobs at h
  obtain ⟨rows, hrows, h⟩ := bind_eq_ok h
  have hthere : t.jobs = some rows := by
    unfold jobRows at hrows
    split at hrows
    · rename_i hthere
      rw [hthere, Except.ok.inj hrows]
    · cases hrows
  have hsorted := sorted_perm rows []
  rw [List.append_nil] at hsorted
  obtain ⟨cells, hcells, -⟩ := bind_eq_ok h
  refine ⟨rows, _, hthere, hsorted, ?_⟩
  rw [← h]
  exact (read_each JobRow.cells JobRow.decode (mapM_ok hcells)).symm

theorem NamesOnce.loaded (h : t.NamesOnce) {jobs : List JobRecord} (hload : t.loadJobs = .ok jobs) :
    (jobs.map (·.name)).Nodup := by
  obtain ⟨rows, sorted, hrows, hsorted, hread⟩ := loadJobs_ok hload
  have hnames : jobs.map (some ·.name) = sorted.map (·.name) :=
    map_of_mapM (fun _ _ h => (toRecord_parts h).1.symm) hread
  refine List.Nodup.of_map some ?_
  rw [List.map_map]
  change (jobs.map (some ·.name)).Nodup
  rw [hnames, (hsorted.map _).nodup_iff]
  exact h rows hrows

end Table

namespace Backend

theorem answer_loadJobs (b : Backend) : (b.answer .loadJobs).2 = b := by
  cases b <;> rfl

/-- Jobs are kept in order, or in rows of distinct names. -/
def NamesOnce : Backend → Prop
  | memory s => JobRecord.Sorted s.jobs
  | table t => t.NamesOnce

variable {b : Backend}

theorem NamesOnce.start (hstart : b = .memory .empty ∨ b = .table .empty) : b.NamesOnce := by
  rcases hstart with rfl | rfl
  · exact List.Pairwise.nil
  · rintro _ ⟨rfl⟩
    exact List.nodup_nil

theorem NamesOnce.step (h : b.NamesOnce) (c : Call) : (b.answer c).2.NamesOnce := by
  cases b with
  | memory s => exact Memory.answer_sorted h c
  | table t => exact Table.NamesOnce.step h c

theorem NamesOnce.run (h : b.NamesOnce) (calls : List Call) :
    (afterAll answer b calls).NamesOnce := by
  induction calls generalizing b with
  | nil => exact h
  | cons c calls ih => exact ih (h.step c)

theorem NamesOnce.loaded (h : b.NamesOnce) {jobs : List JobRecord}
    (hload : (b.answer .loadJobs).1 = .ok jobs) : (jobs.map (·.name)).Nodup := by
  cases b with
  | memory s =>
      obtain rfl := Except.ok.inj hload
      exact JobRecord.Sorted.names h
  | table t => exact Table.NamesOnce.loaded h hload

/-- Some calls on an empty store of either kind lead to one that gives the jobs. -/
def Gives (jobs : List JobRecord) : Prop :=
  ∃ b calls, (b = .memory .empty ∨ b = .table .empty) ∧
    ((afterAll answer b calls).answer .loadJobs).1 = .ok jobs

theorem Gives.names {jobs : List JobRecord} (h : Gives jobs) : (jobs.map (·.name)).Nodup := by
  obtain ⟨b, calls, hstart, hload⟩ := h
  exact ((NamesOnce.start hstart).run calls).loaded hload

end Backend

end WorkQueue
