import Mathlib
import WorkQueue.Proofs.Store.Mirror

/-! # Tables that show the jobs in memory

Memory keeps its jobs in the order of their names and a table keeps its rows in the order of their
insertion. The rows are those of the same jobs in some order, and loading sorts them again, so calls
on jobs are answered alike.
-/

namespace WorkQueue

/-- The window of a job that is saved. -/
def Call.window? : Call → Option Duration
  | saveJob job => job.window
  | _ => none

namespace JobRecord

/-- The jobs are in the order of their names, each name once. -/
def Sorted (js : List JobRecord) : Prop := js.Pairwise (·.name < ·.name)

/-- The jobs of other names. -/
def others (name : String) (js : List JobRecord) : List JobRecord :=
  js.filter (·.name ≠ name)

theorem others_eq_self {name : String} {js : List JobRecord} (h : ∀ j ∈ js, j.name ≠ name) :
    others name js = js :=
  List.filter_eq_self.mpr fun j hj => decide_eq_true (h j hj)

theorem others_cons_of_ne {name : String} {j : JobRecord} (h : j.name ≠ name)
    (js : List JobRecord) : others name (j :: js) = j :: others name js :=
  List.filter_cons_of_pos (decide_eq_true h)

theorem others_cons_of_eq {name : String} {j : JobRecord} (h : j.name = name)
    (js : List JobRecord) : others name (j :: js) = others name js :=
  List.filter_cons_of_neg (by simpa using h)

theorem Sorted.names {js : List JobRecord} (h : Sorted js) : (js.map (·.name)).Nodup :=
  List.pairwise_map.mpr (h.imp ne_of_lt)

theorem Sorted.map {js : List JobRecord} (h : Sorted js) {f : JobRecord → JobRecord}
    (hf : ∀ j, (f j).name = j.name) : Sorted (js.map f) := by
  rw [Sorted, List.pairwise_map]
  simp only [hf]
  exact h

end JobRecord

open JobRecord (Sorted others)

/-! ## Putting a job at its place -/

namespace Memory

theorem putJob_perm {js : List JobRecord} (h : Sorted js) (job : JobRecord) :
    (putJob job js).Perm (job :: others job.name js) := by
  induction js with
  | nil => exact .refl _
  | cons j js ih =>
      obtain ⟨hfirst, hrest⟩ := List.pairwise_cons.mp h
      rw [putJob]
      by_cases heq : j.name = job.name
      · have hother : ∀ a ∈ js, a.name ≠ job.name := fun a ha => heq ▸ (hfirst a ha).ne'
        rw [if_pos heq, JobRecord.others_cons_of_eq heq, JobRecord.others_eq_self hother]
      · rw [if_neg heq, JobRecord.others_cons_of_ne heq]
        by_cases hlt : job.name < j.name
        · have hother : ∀ a ∈ js, a.name ≠ job.name := fun a ha => (hlt.trans (hfirst a ha)).ne'
          rw [if_pos hlt, JobRecord.others_eq_self hother]
        · rw [if_neg hlt]
          exact ((ih hrest).cons j).trans (.swap job j _)

theorem mem_putJob {js : List JobRecord} (h : Sorted js) {job a : JobRecord}
    (ha : a ∈ putJob job js) : a = job ∨ a ∈ js := by
  rcases List.mem_cons.mp ((putJob_perm h job).mem_iff.mp ha) with ha | ha
  · exact .inl ha
  · exact .inr (List.mem_of_mem_filter ha)

theorem putJob_sorted {js : List JobRecord} (h : Sorted js) (job : JobRecord) :
    Sorted (putJob job js) := by
  induction js with
  | nil => exact List.pairwise_singleton _ _
  | cons j js ih =>
      obtain ⟨hfirst, hrest⟩ := List.pairwise_cons.mp h
      rw [putJob]
      by_cases heq : j.name = job.name
      · rw [if_pos heq]
        exact List.pairwise_cons.mpr ⟨heq ▸ hfirst, hrest⟩
      · rw [if_neg heq]
        by_cases hlt : job.name < j.name
        · rw [if_pos hlt]
          refine List.pairwise_cons.mpr ⟨fun a ha => ?_, h⟩
          rcases List.mem_cons.mp ha with rfl | ha
          · exact hlt
          · exact hlt.trans (hfirst a ha)
        · rw [if_neg hlt]
          refine List.pairwise_cons.mpr ⟨fun a ha => ?_, ih hrest⟩
          rcases mem_putJob hrest ha with rfl | ha
          · exact lt_of_le_of_ne (not_lt.mp hlt) heq
          · exact hfirst a ha

theorem answerThrough_jobs (s : Memory) (cut : Instant → Instant) {c : Call}
    (h : c.isJobCall = false) : (s.answerThrough cut c).2.jobs = s.jobs := by
  cases c with
  | saveJob | loadJobs | removeJob | recordFired => cases h
  | _ => exact answer_jobs s rfl

end Memory

namespace Table

open Instant (micros)
open JobRow (ofRecord)

theorem putJob_map {js : List JobRecord} (h : (js.map (·.name)).Nodup) (job : JobRecord) :
    ∃ js' : List JobRecord, putJob (ofRecord job) (js.map ofRecord) = js'.map ofRecord ∧
      js'.Perm (job :: others job.name js) := by
  induction js with
  | nil => exact ⟨[job], rfl, .refl _⟩
  | cons j js ih =>
      obtain ⟨hfirst, hrest⟩ := List.nodup_cons.mp h
      rw [List.map_cons, putJob]
      by_cases heq : j.name = job.name
      · have hother : ∀ a ∈ js, a.name ≠ job.name := fun a ha hname =>
          hfirst (List.mem_map.mpr ⟨a, ha, hname.trans heq.symm⟩)
        refine ⟨job :: js, if_pos (congrArg some heq), ?_⟩
        rw [JobRecord.others_cons_of_eq heq, JobRecord.others_eq_self hother]
      · obtain ⟨js', hmap, hperm⟩ := ih hrest
        have hother : ¬(ofRecord j).name = (ofRecord job).name := fun h => heq (Option.some.inj h)
        refine ⟨j :: js', ?_, ?_⟩
        · rw [if_neg hother, hmap, List.map_cons]
        · rw [JobRecord.others_cons_of_ne heq]
          exact (hperm.cons j).trans (.swap job j _)

theorem placeByName_map {js : List JobRecord} {job : JobRecord}
    (h : ∀ j ∈ js, j.name ≠ job.name) :
    placeByName (ofRecord job) (js.map ofRecord) = (Memory.putJob job js).map ofRecord := by
  induction js with
  | nil => rfl
  | cons j js ih =>
      have hne := h j List.mem_cons_self
      have htail := ih fun a ha => h a (List.mem_cons_of_mem j ha)
      rw [List.map_cons, placeByName, Memory.putJob, if_neg hne, htail]
      by_cases hlt : job.name < j.name
      · rw [if_pos hlt]
        exact if_pos (decide_eq_true hlt)
      · rw [if_neg hlt]
        exact if_neg fun h => hlt (of_decide_eq_true h)

theorem place_all (js : List JobRecord) {sorted : List JobRecord} (hsorted : Sorted sorted)
    (hnames : ((js ++ sorted).map (·.name)).Nodup) :
    ∃ js', (js.map ofRecord).foldl (fun rows r => placeByName r rows) (sorted.map ofRecord) =
      js'.map ofRecord ∧ Sorted js' ∧ js'.Perm (js ++ sorted) := by
  induction js generalizing sorted with
  | nil => exact ⟨sorted, rfl, hsorted, .refl _⟩
  | cons j js ih =>
      have hfresh : ∀ a ∈ sorted, a.name ≠ j.name := fun a ha hname =>
        (List.nodup_cons.mp hnames).1
          (List.mem_map.mpr ⟨a, List.mem_append_right js ha, hname⟩)
      have hput : (Memory.putJob j sorted).Perm (j :: sorted) := by
        have := Memory.putJob_perm hsorted j
        rwa [JobRecord.others_eq_self hfresh] at this
      have hperm : (js ++ Memory.putJob j sorted).Perm (j :: js ++ sorted) :=
        (hput.append_left js).trans List.perm_middle
      obtain ⟨js', hfold, hjs', hall⟩ := ih (Memory.putJob_sorted hsorted j)
        ((hperm.map _).nodup_iff.mpr hnames)
      refine ⟨js', ?_, hjs', hall.trans hperm⟩
      rw [List.map_cons, List.foldl_cons, placeByName_map hfresh, hfold]

/-! ## Calls on jobs -/

/-- The rows of the table are those of the jobs in memory. -/
structure ShowsJobs (t : Table) (s : Memory) : Prop where
  rows : ∃ js : List JobRecord, t.jobs = some (js.map ofRecord) ∧ js.Perm s.jobs
  sorted : Sorted s.jobs
  fits : ∀ j ∈ s.jobs, j.Fits

theorem ShowsJobs.empty : ShowsJobs .empty .empty where
  rows := ⟨[], rfl, .nil⟩
  sorted := List.Pairwise.nil
  fits := by simp [Memory.empty]

variable {t : Table} {s : Memory}

theorem ShowsJobs.congr (h : t.ShowsJobs s) {t' : Table} {s' : Memory} (ht : t'.jobs = t.jobs)
    (hs : s'.jobs = s.jobs) : t'.ShowsJobs s' := by
  obtain ⟨hrows, hsorted, hfits⟩ := h
  exact ⟨ht ▸ hs ▸ hrows, hs ▸ hsorted, hs ▸ hfits⟩

theorem loadJobs_shown (h : t.ShowsJobs s) : t.loadJobs = .ok s.jobs := by
  obtain ⟨js, hrows, hperm⟩ := h.rows
  obtain ⟨js', hfold, hsorted, hall⟩ := place_all js List.Pairwise.nil <| by
    rw [List.append_nil, (hperm.map _).nodup_iff]
    exact h.sorted.names
  rw [List.append_nil] at hall
  have hjobs : js' = s.jobs := by
    refine (hall.trans hperm).eq_of_pairwise (fun a b _ _ hab hba => ?_) hsorted h.sorted
    exact absurd hab hba.asymm
  have hread := read_map JobRow.cells JobRow.decode JobRow.cellsOf
    (fun j (_ : j ∈ s.jobs) => JobRow.cells_ofRecord j) fun j hj =>
      JobRow.decode_ofRecord (h.fits j hj)
  rw [loadJobs, jobRows, hrows]
  change (do
    let rows := (js.map ofRecord).foldl (fun sorted r => placeByName r sorted) ([].map ofRecord)
    let cells ← rows.mapM JobRow.cells
    (rows.zip cells).mapM fun (r, c) => JobRow.decode r c) = _
  rw [hfold, hjobs]
  exact hread

theorem saveJob_shown (h : t.ShowsJobs s) {job : JobRecord} (hjob : (job.cut micros).Fits) :
    (t.answer (.saveJob job)).1 = .ok () ∧
      (t.answer (.saveJob job)).2.ShowsJobs (s.answerThrough micros (.saveJob job)).2 := by
  obtain ⟨js, hrows, hperm⟩ := h.rows
  have hrow : ofRecord job = ofRecord (job.cut micros) := by
    simp only [ofRecord, JobRecord.cut, Option.map_map, Instant.micros_column,
      show Instant.column ∘ micros = Instant.column from funext Instant.micros_column]
    rfl
  obtain ⟨js', hput, hjs'⟩ := putJob_map ((hperm.map _).nodup_iff.mpr h.sorted.names)
    (job.cut micros)
  have hplaced := Memory.putJob_perm h.sorted (job.cut micros)
  have hanswer : t.answer (.saveJob job) =
      (.ok (), { t with jobs := some (js'.map ofRecord) }) := by
    change t.saveJob job = _
    rw [saveJob, jobRows, hrows, hrow, ← hput]
    rfl
  rw [hanswer]
  refine ⟨rfl, ⟨js', rfl, ?_⟩, Memory.putJob_sorted h.sorted _, fun j hj => ?_⟩
  · exact hjs'.trans (((hperm.filter _).cons _).trans hplaced.symm)
  · rcases Memory.mem_putJob h.sorted hj with rfl | hj
    · exact hjob
    · exact h.fits j hj

theorem ShowsJobs.map (h : t.ShowsJobs s) {f : JobRow → JobRow} {g : JobRecord → JobRecord}
    (hname : ∀ j, (g j).name = j.name) (hfits : ∀ j ∈ s.jobs, (g j).Fits)
    (hrow : ∀ j ∈ s.jobs, f (ofRecord j) = ofRecord (g j)) :
    ShowsJobs { t with jobs := t.jobs.map (·.map f) } { s with jobs := s.jobs.map g } := by
  obtain ⟨js, hrows, hperm⟩ := h.rows
  refine ⟨⟨js.map g, ?_, hperm.map g⟩, h.sorted.map hname, fun j hj => ?_⟩
  · change t.jobs.map (·.map f) = _
    rw [hrows, Option.map_some, List.map_map, List.map_map]
    exact congrArg some (List.map_congr_left fun j hj => hrow j (hperm.mem_iff.mp hj))
  · obtain ⟨a, ha, rfl⟩ := List.mem_map.mp hj
    exact hfits a ha

theorem recordFired_shown (h : t.ShowsJobs s) (name : String) {slot : Instant}
    (hslot : slot.FourDigitYear) :
    (t.answer (.recordFired name slot)).1 = .ok () ∧
      (t.answer (.recordFired name slot)).2.ShowsJobs
        (s.answerThrough micros (.recordFired name slot)).2 := by
  have hshown := h.map
    (f := fun r => if r.name = some name then
      { r with lastFiredSlot := some slot.column, windowPending := .integer 0 } else r)
    (g := fun j => if j.name = name then j.markFired slot.micros else j)
    (fun j => by split <;> rfl)
    (fun j hj => by
      split
      · exact ⟨fun t ht => Option.some.inj ht ▸ Instant.exact_micros hslot, (h.fits j hj).armedAt,
          (h.fits j hj).window⟩
      · exact h.fits j hj)
    (fun j _ => by
      simp only [ofRecord, Option.some.injEq]
      split
      · simp only [JobRecord.markFired, Option.map_some, Instant.micros_column, Bool.false_eq_true,
          if_false]
        rfl
      · rfl)
  obtain ⟨js, hrows, -⟩ := h.rows
  have hanswer : t.answer (.recordFired name slot) = (.ok (), { t with
      jobs := t.jobs.map (·.map fun r => if r.name = some name then
        { r with lastFiredSlot := some slot.column, windowPending := .integer 0 } else r) }) := by
    change t.recordFired name slot = _
    rw [recordFired, jobRows, hrows]
    rfl
  rw [hanswer]
  exact ⟨rfl, hshown⟩

/-- The job has the name and is not removed. -/
def isNamed (name : String) (j : JobRecord) : Bool := decide (j.name = name) && j.isActive

theorem memory_removeJob (h : Sorted s.jobs) (name : String) :
    s.removeJob name = (s.jobs.any (isNamed name),
      { s with jobs := s.jobs.map fun j => if isNamed name j then j.markRemoved else j }) := by
  have hkept (hnone : ∀ j ∈ s.jobs, ¬isNamed name j = true) :
      (false, s) = (s.jobs.any (isNamed name),
        { s with jobs := s.jobs.map fun j => if isNamed name j then j.markRemoved else j }) := by
    have hmap : (s.jobs.map fun j => if isNamed name j then j.markRemoved else j) = s.jobs := by
      rw [List.map_congr_left fun j hj => if_neg (hnone j hj), List.map_id']
    rw [hmap, List.any_eq_false.mpr hnone]
  rw [Memory.removeJob]
  cases hfind : s.jobs.find? (·.name = name) with
  | none =>
      refine hkept fun j hj hnamed => ?_
      rw [isNamed, Bool.and_eq_true] at hnamed
      exact List.find?_eq_none.mp hfind j hj hnamed.1
  | some j =>
      have hj := List.mem_of_find?_eq_some hfind
      have hname : j.name = name := of_decide_eq_true (List.find?_some (p := fun a : JobRecord =>
        decide (a.name = name)) hfind)
      have honly : ∀ a ∈ s.jobs, a.name = name → a = j := fun a ha ha' =>
        List.inj_on_of_nodup_map h.names ha hj (ha'.trans hname.symm)
      by_cases hactive : j.isActive = true
      · have hnamed : ∀ a ∈ s.jobs, isNamed name a = true ↔ a.name = name := fun a ha => by
          rw [isNamed, Bool.and_eq_true, decide_eq_true_eq, and_iff_left_iff_imp]
          exact fun ha' => honly a ha ha' ▸ hactive
        have hany : s.jobs.any (isNamed name) = true :=
          List.any_eq_true.mpr ⟨j, hj, (hnamed j hj).mpr hname⟩
        have hmap : (s.jobs.map fun a => if isNamed name a then a.markRemoved else a) =
            s.jobs.map fun a => if a.name = name then a.markRemoved else a :=
          List.map_congr_left fun a ha => by simp only [hnamed a ha]
        rw [hany, hmap]
        exact if_pos hactive
      · refine (if_neg hactive).trans (hkept fun a ha hnamed => ?_)
        rw [isNamed, Bool.and_eq_true, decide_eq_true_eq] at hnamed
        exact hactive (honly a ha hnamed.1 ▸ hnamed.2)

theorem removeJob_shown (h : t.ShowsJobs s) (name : String) :
    (t.answer (.removeJob name)).1 = (s.answerThrough micros (.removeJob name)).1 ∧
      (t.answer (.removeJob name)).2.ShowsJobs (s.answerThrough micros (.removeJob name)).2 := by
  have hrow (j : JobRecord) : (decide ((ofRecord j).name = some name) &&
      decide ((ofRecord j).removed = .integer 0)) = isNamed name j := by
    have hname : decide (some j.name = some name) = decide (j.name = name) :=
      decide_eq_decide.mpr (by rw [Option.some.injEq])
    have hremoved : decide (Cell.integer (if j.removed = true then 1 else 0) = .integer 0) =
        !j.removed := by
      cases j.removed <;> rfl
    exact congrArg₂ (· && ·) hname hremoved
  have hshown := h.map
    (f := fun r => if (decide (r.name = some name) && decide (r.removed = .integer 0)) = true then
      { r with removed := .integer 1 } else r)
    (g := fun j => if isNamed name j then j.markRemoved else j)
    (fun j => by split <;> rfl)
    (fun j hj => by
      split
      · exact ⟨(h.fits j hj).lastFiredSlot, (h.fits j hj).armedAt, (h.fits j hj).window⟩
      · exact h.fits j hj)
    (fun j _ => by
      rw [hrow]
      split <;> rfl)
  obtain ⟨js, hrows, hperm⟩ := h.rows
  have hany : (js.map ofRecord).any (fun r =>
      decide (r.name = some name) && decide (r.removed = .integer 0)) =
        s.jobs.any (isNamed name) := by
    rw [List.any_map, ← hperm.any_eq]
    exact congrArg js.any (funext hrow)
  have hanswer : t.answer (.removeJob name) = (.ok (s.jobs.any (isNamed name)), { t with
      jobs := t.jobs.map (·.map fun r =>
        if (decide (r.name = some name) && decide (r.removed = .integer 0)) = true then
          { r with removed := .integer 1 } else r) }) := by
    change t.removeJob name = _
    rw [removeJob, jobRows, hrows, ← hany]
    rfl
  have hmemory : s.answerThrough micros (.removeJob name) = (.ok (s.jobs.any (isNamed name)),
      { s with jobs := s.jobs.map fun j => if isNamed name j then j.markRemoved else j }) := by
    change (Except.ok (s.removeJob name).1, (s.removeJob name).2) = _
    rw [memory_removeJob h.sorted]
  rw [hanswer, hmemory]
  exact ⟨rfl, hshown⟩

/-! ## All calls -/

theorem answer_missing (hrows : t.jobs = none) {c : Call} (hjob : c.isJobCall = true) :
    (t.answer c).2 = t := by
  have hmissing : t.jobRows = .error (missing "jobs") := by rw [jobRows, hrows]
  cases c with
  | saveJob | removeJob | recordFired =>
      simp only [answer, saveJob, removeJob, recordFired, hmissing]
      rfl
  | loadJobs => rfl
  | _ => cases hjob

theorem jobCall_only_jobs (t : Table) {c : Call} (hjob : c.isJobCall = true) :
    ∃ jobs, (t.answer c).2 = { t with jobs } := by
  cases hrows : t.jobs with
  | none => exact ⟨t.jobs, answer_missing hrows hjob⟩
  | some rows =>
      have hthere : t.jobRows = .ok rows := by rw [jobRows, hrows]
      cases c with
      | saveJob | removeJob | recordFired =>
          simp only [answer, saveJob, removeJob, recordFired, hthere]
          exact ⟨_, rfl⟩
      | loadJobs => exact ⟨t.jobs, rfl⟩
      | _ => cases hjob

/-- The rows of the table are those of the messages and of the jobs in memory. -/
structure Shows (t : Table) (s : Memory) : Prop extends t.ShowsJobs s where
  messages : t.showing s = t

theorem Shows.empty : Shows .empty .empty := ⟨.empty, rfl⟩

variable {log : List Entry} {c : Call}

/-- Every call is answered by the two stores alike, and the table goes on showing the memory. -/
theorem Shows.step (h : t.Shows s) (hs : s.Sound log) (hr : s.Recorded log)
    (hc : c.Admissible log) (hdated : c.Dated)
    (hwindow : ∀ d ∈ c.window?, d.WholeMillis) :
    (t.answer c).1 = (s.answerThrough micros c).1 ∧
      (t.answer c).2.Shows (s.answerThrough micros c).2 := by
  cases hjob : c.isJobCall with
  | false =>
      have hagrees := agrees t hs hr hc hdated hjob
      rw [Agrees, h.messages] at hagrees
      rw [hagrees]
      exact ⟨rfl, h.toShowsJobs.congr rfl (s.answerThrough_jobs micros hjob), rfl⟩
  | true =>
      obtain ⟨jobs, ht⟩ := t.jobCall_only_jobs hjob
      obtain ⟨jobs', hs'⟩ := s.jobCall_only_jobs micros hjob
      have hmessages : (t.answer c).2.showing (s.answerThrough micros c).2 = (t.answer c).2 := by
        have := h.messages
        rw [ht, hs']
        simp only [showing] at this ⊢
        rw [← this]
      cases c with
      | saveJob job =>
          have hfits : (job.cut micros).Fits := by
            have htimes := hdated.times
            simp only [Call.times, List.mem_append, Option.mem_toList, List.mem_singleton] at htimes
            refine ⟨fun a ha => ?_, Instant.exact_micros (htimes _ (.inr rfl)), hwindow⟩
            obtain ⟨b, hb, rfl⟩ := Option.map_eq_some_iff.mp ha
            exact Instant.exact_micros (htimes b (.inl hb))
          obtain ⟨hreply, hjobs⟩ := saveJob_shown h.toShowsJobs hfits
          exact ⟨hreply, hjobs, hmessages⟩
      | removeJob name =>
          obtain ⟨hreply, hjobs⟩ := removeJob_shown h.toShowsJobs name
          exact ⟨hreply, hjobs, hmessages⟩
      | recordFired name slot =>
          obtain ⟨hreply, hjobs⟩ := recordFired_shown h.toShowsJobs name
            (hdated.times slot (List.mem_singleton_self slot))
          exact ⟨hreply, hjobs, hmessages⟩
      | loadJobs => exact ⟨loadJobs_shown h.toShowsJobs, h.toShowsJobs, hmessages⟩
      | _ => cases hjob

end Table

end WorkQueue
