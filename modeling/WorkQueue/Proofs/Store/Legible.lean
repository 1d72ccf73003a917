import Mathlib
import WorkQueue.Proofs.Store.Moves

/-! # Rows that read back

Columns tell instants whose years have four digits, and no others: an earlier or a later year is
written with a sign, which the reader of columns does not take. So every row reads back as long as
all calls are dated, and a row that is written by any other insertion or job does not.
-/

namespace WorkQueue

/-! ## Reading several rows -/

section MapM

variable {α β : Type} {f : α → Except StoreError β}

theorem mapM_ok {xs : List α} {ys : List β} (h : xs.mapM f = .ok ys) :
    ∀ a ∈ xs, ∃ b, f a = .ok b := by
  induction xs generalizing ys with
  | nil => simp
  | cons a xs ih =>
      rw [List.mapM_cons] at h
      cases hfirst : f a with
      | error e =>
          rw [hfirst] at h
          cases h
      | ok b =>
          cases hrest : xs.mapM f with
          | error e =>
              rw [hfirst, hrest] at h
              cases h
          | ok bs => exact List.forall_mem_cons.mpr ⟨⟨b, hfirst⟩, ih hrest⟩

theorem mapM_error {xs : List α} {e : StoreError} (h : xs.mapM f = .error e) :
    ∃ a ∈ xs, f a = .error e := by
  induction xs with
  | nil => cases h
  | cons a xs ih =>
      rw [List.mapM_cons] at h
      cases hfirst : f a with
      | error e' =>
          rw [hfirst] at h
          obtain rfl := Except.error.inj h
          exact ⟨a, List.mem_cons_self, hfirst⟩
      | ok b =>
          cases hrest : xs.mapM f with
          | error e' =>
              rw [hfirst, hrest] at h
              obtain rfl := Except.error.inj h
              obtain ⟨x, hx, hfail⟩ := ih hrest
              exact ⟨x, List.mem_cons_of_mem a hx, hfail⟩
          | ok bs =>
              rw [hfirst, hrest] at h
              cases h

theorem read_each {ρ κ : Type} (cells : ρ → Except StoreError κ)
    (decode : ρ → κ → Except StoreError α) {rows : List ρ}
    (hcells : ∀ r ∈ rows, ∃ c, cells r = .ok c) :
    (do
      let cs ← rows.mapM cells
      (rows.zip cs).mapM fun (r, c) => decode r c) = rows.mapM fun r => cells r >>= decode r := by
  induction rows with
  | nil => rfl
  | cons r rows ih =>
      obtain ⟨c, hc⟩ := hcells r List.mem_cons_self
      have hrest := fun a ha => hcells a (List.mem_cons_of_mem r ha)
      have htail := ih hrest
      rw [List.mapM_cons, List.mapM_cons, ← htail, hc]
      cases hread : rows.mapM cells with
      | error e =>
          obtain ⟨a, ha, hfail⟩ := mapM_error hread
          obtain ⟨c', hc'⟩ := hrest a ha
          cases hfail.symm.trans hc'
      | ok cs =>
          change ((r, c) :: rows.zip cs).mapM (fun x => decode x.1 x.2) = _
          rw [List.mapM_cons]
          rfl

end MapM

/-! ## Rows of jobs -/

/-- The times of the record have years of four digits. -/
def JobRecord.Dated (j : JobRecord) : Prop :=
  (∀ t ∈ j.lastFiredSlot, t.FourDigitYear) ∧ j.armedAt.FourDigitYear

namespace JobRow

/-- The record of a job row. -/
def toRecord (r : JobRow) : Except StoreError JobRecord := r.cells >>= r.decode

theorem toRecord_ofRecord (j : JobRecord) :
    (ofRecord j).toRecord = (do
      let lastFiredSlot ← Instant.ofColumn? (j.lastFiredSlot.map Instant.column)
      let armedAt ← Instant.ofColumn j.armedAt.column
      .ok { j with
        lastFiredSlot, armedAt
        window := (j.window.map Duration.column).map Duration.ofColumn }) := by
  rw [toRecord, cells_ofRecord, ok_bind]
  rfl

theorem toRecord_dated {j : JobRecord} (h : j.Dated) : ∃ j', (ofRecord j).toRecord = .ok j' := by
  rw [toRecord_ofRecord, Instant.ofColumn?_column h.1, ok_bind, Instant.ofColumn_column h.2,
    ok_bind]
  exact ⟨_, rfl⟩

theorem toRecord_undated {j : JobRecord} (h : ¬ j.Dated) :
    ∃ fault, (ofRecord j).toRecord = .error (.unreadable fault) := by
  rw [toRecord_ofRecord]
  by_cases hslot : ∀ t ∈ j.lastFiredSlot, t.FourDigitYear
  · have harmed : ¬ j.armedAt.FourDigitYear := fun harmed => h ⟨hslot, harmed⟩
    rw [Instant.ofColumn?_column hslot, ok_bind, Instant.ofColumn_wide harmed]
    exact ⟨_, rfl⟩
  · obtain ⟨raw, hread⟩ := Instant.ofColumn?_wide hslot
    rw [hread]
    exact ⟨_, rfl⟩

end JobRow

/-! ## Rows of messages -/

/-- The times of the message have years of four digits. -/
structure Message.Dated (m : Message) : Prop where
  slot : ∀ k ∈ m.job, k.slot.FourDigitYear
  visibleAfter : ∀ t ∈ m.visibleAfter, t.FourDigitYear
  expiresAt : ∀ t ∈ m.expiresAt, t.FourDigitYear
  lastHeartbeat : ∀ t ∈ m.lastHeartbeat, t.FourDigitYear
  enqueuedAt : m.enqueuedAt.FourDigitYear

namespace MessageRow

theorem jobKey_dated {m : Message} (h : ∀ k ∈ m.job, k.slot.FourDigitYear) :
    (ofMessage m).jobKey = .ok (m.job.map (·.cut Instant.micros)) := by
  cases hjob : m.job with
  | none => simp only [jobKey, ofMessage, hjob, Option.map_none]
  | some k =>
      simp only [jobKey, ofMessage, hjob, Option.map_some, Instant.ofColumn_column (h k hjob)]
      rfl

theorem jobKey_undated {m : Message} (h : ¬ ∀ k ∈ m.job, k.slot.FourDigitYear) :
    ∃ raw, (ofMessage m).jobKey = .error (.unreadable (.timestamp raw)) := by
  cases hjob : m.job with
  | none => exact absurd (by simp [hjob]) h
  | some k =>
      have hwide : ¬ k.slot.FourDigitYear := fun hk => h fun a ha => by
        obtain rfl := Option.some.inj (hjob.symm.trans ha)
        exact hk
      refine ⟨k.slot.column, ?_⟩
      simp only [jobKey, ofMessage, hjob, Option.map_some, Instant.ofColumn_wide hwide]
      rfl

/-- Only the times can keep the row of a message from being read. -/
theorem toMessage_ofMessage_eq (m : Message) :
    (ofMessage m).toMessage = (do
      let job ← (ofMessage m).jobKey
      let visibleAfter ← Instant.ofColumn? (m.visibleAfter.map Instant.column)
      let expiresAt ← Instant.ofColumn? (m.expiresAt.map Instant.column)
      let lastHeartbeat ← Instant.ofColumn? (m.lastHeartbeat.map Instant.column)
      let enqueuedAt ← Instant.ofColumn m.enqueuedAt.column
      .ok { m with
        job, visibleAfter, expiresAt, lastHeartbeat, enqueuedAt
        ownerToken := (m.ownerToken.map (·.token)).map (⟨·⟩)
        retryCount := (m.retryCount : Int).toNat % UInt32.size }) := by
  have hid : MessageId.ofText? (ofMessage m).id = some m.id := MessageId.ofText?_text m.id
  rw [toMessage, cells_ofMessage, ok_bind, decode, hid]
  have hheaders : Headers.ofColumn (ofMessage m).headers = .ok m.headers :=
    Headers.ofColumn_column _
  have hstatus : Status.ofColumn (ofMessage m).status = .ok m.status := status_ofColumn _
  simp only [ok_bind, hheaders, hstatus]
  rfl

theorem toMessage_undated {m : Message} (h : ¬ m.Dated) :
    ∃ raw, (ofMessage m).toMessage = .error (.unreadable (.timestamp raw)) := by
  rw [toMessage_ofMessage_eq]
  by_cases hslot : ∀ k ∈ m.job, k.slot.FourDigitYear
  · rw [jobKey_dated hslot, ok_bind]
    by_cases hvisible : ∀ t ∈ m.visibleAfter, t.FourDigitYear
    · rw [Instant.ofColumn?_column hvisible, ok_bind]
      by_cases hexpires : ∀ t ∈ m.expiresAt, t.FourDigitYear
      · rw [Instant.ofColumn?_column hexpires, ok_bind]
        by_cases hbeat : ∀ t ∈ m.lastHeartbeat, t.FourDigitYear
        · rw [Instant.ofColumn?_column hbeat, ok_bind]
          have hwide : ¬ m.enqueuedAt.FourDigitYear := fun hstamp =>
            h ⟨hslot, hvisible, hexpires, hbeat, hstamp⟩
          rw [Instant.ofColumn_wide hwide]
          exact ⟨_, rfl⟩
        · obtain ⟨raw, hread⟩ := Instant.ofColumn?_wide hbeat
          rw [hread]
          exact ⟨raw, rfl⟩
      · obtain ⟨raw, hread⟩ := Instant.ofColumn?_wide hexpires
        rw [hread]
        exact ⟨raw, rfl⟩
    · obtain ⟨raw, hread⟩ := Instant.ofColumn?_wide hvisible
      rw [hread]
      exact ⟨raw, rfl⟩
  · obtain ⟨raw, hread⟩ := jobKey_undated hslot
    rw [hread]
    exact ⟨raw, rfl⟩

end MessageRow

/-! ## Tables -/

namespace Table

open JobRow (ofRecord)
open MessageRow (ofMessage)

variable {t : Table} {s : Memory} {c : Call}

theorem mem_putJob {row r : JobRow} {rows : List JobRow} (h : r ∈ putJob row rows) :
    r = row ∨ r ∈ rows := by
  induction rows with
  | nil => exact .inl (List.mem_singleton.mp h)
  | cons a rows ih =>
      unfold putJob at h
      split at h
      · rcases List.mem_cons.mp h with rfl | h
        · exact .inl rfl
        · exact .inr (List.mem_cons_of_mem a h)
      · rcases List.mem_cons.mp h with rfl | h
        · exact .inr List.mem_cons_self
        · exact (ih h).imp_right (List.mem_cons_of_mem a)

theorem mem_putJob_self (row : JobRow) (rows : List JobRow) : row ∈ putJob row rows := by
  induction rows with
  | nil => exact List.mem_singleton_self row
  | cons a rows ih =>
      unfold putJob
      split
      · exact List.mem_cons_self
      · exact List.mem_cons_of_mem a ih

theorem mem_placeByName {row r : JobRow} {rows : List JobRow} :
    r ∈ placeByName row rows ↔ r = row ∨ r ∈ rows := by
  induction rows with
  | nil => simp [placeByName]
  | cons a rows ih =>
      have hplace : placeByName row (a :: rows) = row :: a :: rows ∨
          placeByName row (a :: rows) = a :: placeByName row rows := ite_eq_or_eq _ _ _
      rcases hplace with h | h
      · rw [h, List.mem_cons]
      · rw [h, List.mem_cons, ih, List.mem_cons]
        exact or_left_comm

theorem mem_sorted {rows sorted : List JobRow} {r : JobRow} :
    r ∈ rows.foldl (fun sorted r => placeByName r sorted) sorted ↔ r ∈ rows ∨ r ∈ sorted := by
  induction rows generalizing sorted with
  | nil => simp
  | cons a rows ih =>
      rw [List.foldl_cons, ih, mem_placeByName, List.mem_cons]
      exact ⟨by tauto, by tauto⟩

theorem loadJobs_eq {rows : List JobRow} (hrows : t.jobs = some rows)
    (hmade : ∀ r ∈ rows, ∃ j, r = ofRecord j) :
    t.loadJobs = (rows.foldl (fun sorted r => placeByName r sorted) []).mapM JobRow.toRecord := by
  rw [loadJobs, jobRows, hrows]
  refine read_each JobRow.cells JobRow.decode fun r hr => ?_
  obtain ⟨j, rfl⟩ := hmade r ((mem_sorted.mp hr).resolve_right List.not_mem_nil)
  exact ⟨_, JobRow.cells_ofRecord j⟩

/-- All rows of the table read. -/
structure Legible (t : Table) : Prop where
  messages : ∃ s, t.Reads s
  jobs : ∃ rows, t.jobs = some rows ∧ ∀ r ∈ rows, ∃ j : JobRecord, j.Dated ∧ r = ofRecord j

theorem Legible.empty : Legible .empty := ⟨⟨.empty, .empty⟩, ⟨[], rfl, by simp⟩⟩

theorem Legible.loadJobs (h : t.Legible) : ∃ jobs, t.loadJobs = .ok jobs := by
  obtain ⟨rows, hrows, hdated⟩ := h.jobs
  rw [loadJobs_eq hrows fun r hr => (hdated r hr).imp fun _ => And.right]
  cases hread : (rows.foldl (fun sorted r => placeByName r sorted) []).mapM JobRow.toRecord with
  | ok jobs => exact ⟨jobs, rfl⟩
  | error e =>
      obtain ⟨r, hr, hfail⟩ := mapM_error hread
      obtain ⟨j, hj, rfl⟩ := hdated r ((mem_sorted.mp hr).resolve_right List.not_mem_nil)
      obtain ⟨j', hj'⟩ := JobRow.toRecord_dated hj
      cases hfail.symm.trans hj'

theorem Legible.jobs_step (h : t.Legible) (hdated : c.Dated) (hjob : c.isJobCall = true) :
    Expected (t.answer c).1 ∧ ∃ rows, (t.answer c).2.jobs = some rows ∧
      ∀ r ∈ rows, ∃ j : JobRecord, j.Dated ∧ r = ofRecord j := by
  obtain ⟨rows, hrows, hmade⟩ := h.jobs
  have hread : t.jobRows = .ok rows := by rw [jobRows, hrows]
  cases c with
  | saveJob job =>
      have hjob : job.Dated := by
        have htimes := hdated.times
        simp only [Call.times, List.mem_append, Option.mem_toList, List.mem_singleton] at htimes
        exact ⟨fun a ha => htimes a (.inl ha), htimes _ (.inr rfl)⟩
      simp only [answer, saveJob, hread]
      refine ⟨.ok _, _, rfl, fun r hr => ?_⟩
      rcases mem_putJob hr with rfl | hr
      · exact ⟨job, hjob, rfl⟩
      · exact hmade r hr
  | loadJobs =>
      obtain ⟨jobs, hjobs⟩ := h.loadJobs
      refine ⟨?_, rows, hrows, hmade⟩
      change Expected t.loadJobs
      rw [hjobs]
      exact .ok _
  | removeJob name =>
      simp only [answer, removeJob, hread]
      refine ⟨.ok _, _, rfl, fun r hr => ?_⟩
      obtain ⟨a, ha, rfl⟩ := List.mem_map.mp hr
      obtain ⟨j, hj, rfl⟩ := hmade a ha
      split
      · exact ⟨j.markRemoved, hj, rfl⟩
      · exact ⟨j, hj, rfl⟩
  | recordFired name slot =>
      have hslot := hdated.times slot (List.mem_singleton_self slot)
      simp only [answer, recordFired, hread]
      refine ⟨.ok _, _, rfl, fun r hr => ?_⟩
      obtain ⟨a, ha, rfl⟩ := List.mem_map.mp hr
      obtain ⟨j, hj, rfl⟩ := hmade a ha
      split
      · exact ⟨j.markFired slot, ⟨fun t ht => Option.some.inj ht ▸ hslot, hj.2⟩, rfl⟩
      · exact ⟨j, hj, rfl⟩
  | _ => cases hjob

/-- A dated call is answered by a result or a conflict, and leaves rows that read. -/
theorem Legible.step (h : t.Legible) (hdated : c.Dated) :
    Expected (t.answer c).1 ∧ (t.answer c).2.Legible := by
  obtain ⟨s, hs⟩ := h.messages
  cases hjob : c.isJobCall with
  | false =>
      obtain ⟨hreply, s', -, hs', hjobs⟩ := hs.step hdated hjob
      exact ⟨hreply, ⟨s', hs'⟩, hjobs ▸ h.jobs⟩
  | true =>
      obtain ⟨hreply, hrows⟩ := h.jobs_step hdated hjob
      exact ⟨hreply, ⟨s, hs.jobCall hjob⟩, hrows⟩

theorem Legible.run (h : t.Legible) {calls : List Call} (hdated : ∀ c ∈ calls, c.Dated) :
    (afterAll answer t calls).Legible := by
  induction calls generalizing t with
  | nil => exact h
  | cons c calls ih =>
      obtain ⟨hc, hrest⟩ := List.forall_mem_cons.mp hdated
      exact ih (h.step hc).2 hrest

/-- A message that is inserted with another time is stored and cannot be read. -/
theorem Legible.insert_undated (h : t.Legible) {new : NewMessage} {id : MessageId} {stamp : Instant}
    (hundated : ¬ (Call.insert new id stamp).Dated) (hstored : (t.insert new id stamp).1 = .ok id) :
    ∃ raw, ((t.insert new id stamp).2.answer (.get id)).1 =
      .error (.unreadable (.timestamp raw)) := by
  obtain ⟨s, hs⟩ := h.messages
  have hrow (n : Nat) : ¬ (new.toMessage id n stamp).Dated := fun hm => hundated <| by
    refine ⟨fun a ha => ?_, fun a ha => Option.some.inj ha ▸ hm.enqueuedAt⟩
    simp only [Call.times, List.mem_append, Option.mem_toList] at ha
    rcases ha with (ha | ha) | ha
    · exact hm.visibleAfter a ha
    · exact hm.expiresAt a ha
    · obtain ⟨k, hk, rfl⟩ := Option.map_eq_some_iff.mp ha
      exact hm.slot k hk
  obtain ⟨raw, hread⟩ := MessageRow.toMessage_undated (hrow (s.lastSequence + 1))
  refine ⟨raw, ?_⟩
  let row := ofMessage (new.toMessage id (s.lastSequence + 1) stamp)
  rw [← hs.shown, insert_showing] at hstored ⊢
  by_cases hclash : (s.messages.map ofMessage).any (·.clashes row) = true
  · rw [if_pos hclash] at hstored
    cases hstored
  · rw [if_neg hclash]
    have hother : (s.messages.map ofMessage).find? (fun r => decide (r.id = id.text)) = none := by
      refine List.find?_eq_none.mpr fun r hr hid => hclash (List.any_eq_true.mpr ⟨r, hr, ?_⟩)
      have hsame : decide (r.id = row.id) = true := hid
      simp only [MessageRow.clashes, hsame, Bool.true_or]
    change load? (s.messages.map ofMessage ++ [row]) id = _
    have hself : [row].find? (fun r => decide (r.id = id.text)) = some row :=
      List.find?_cons_of_pos (decide_eq_true rfl)
    rw [load?, List.find?_append, hother, Option.none_or, hself]
    change row.toMessage.map some = _
    rw [hread]
    rfl

/-- A job that is saved with another time keeps all jobs from being loaded. -/
theorem Legible.saveJob_undated (h : t.Legible) {job : JobRecord} (hundated : ¬ job.Dated) :
    ∃ fault, ((t.saveJob job).2.answer .loadJobs).1 = .error (.unreadable fault) := by
  obtain ⟨rows, hrows, hmade⟩ := h.jobs
  have hsaved : (t.saveJob job).2.jobs = some (putJob (ofRecord job) rows) := by
    have hread : t.jobRows = .ok rows := by rw [jobRows, hrows]
    simp only [saveJob, hread]
    rfl
  have hall : ∀ r ∈ putJob (ofRecord job) rows, ∃ j, r = ofRecord j := fun r hr => by
    rcases mem_putJob hr with rfl | hr
    · exact ⟨job, rfl⟩
    · exact (hmade r hr).imp fun _ => And.right
  change ∃ fault, (t.saveJob job).2.loadJobs = .error (.unreadable fault)
  rw [loadJobs_eq hsaved hall]
  cases hread : ((putJob (ofRecord job) rows).foldl (fun sorted r => placeByName r sorted)
      []).mapM JobRow.toRecord with
  | ok jobs =>
      obtain ⟨j', hj'⟩ := mapM_ok hread _ (mem_sorted.mpr (.inl (mem_putJob_self _ rows)))
      obtain ⟨fault, hfail⟩ := JobRow.toRecord_undated hundated
      cases hfail.symm.trans hj'
  | error e =>
      obtain ⟨r, hr, hfail⟩ := mapM_error hread
      obtain ⟨j, rfl⟩ := hall r ((mem_sorted.mp hr).resolve_right List.not_mem_nil)
      by_cases hj : j.Dated
      · obtain ⟨j', hj'⟩ := JobRow.toRecord_dated hj
        cases hfail.symm.trans hj'
      · obtain ⟨fault, hfault⟩ := JobRow.toRecord_undated hj
        obtain rfl := Except.error.inj (hfail.symm.trans hfault)
        exact ⟨fault, rfl⟩

/-- After dated calls every row reads and every dated call is answered by a result or a conflict; a
message or a job that is stored with any other time does not read. -/
theorem reads_back (calls : List Call) (hdated : ∀ c ∈ calls, c.Dated) :
    let t := afterAll answer .empty calls
    (∃ rows, t.rows = .ok rows ∧ ∀ r ∈ rows, ∃ m, r.toMessage = .ok m) ∧
    (∃ rows, t.jobRows = .ok rows ∧ ∀ r ∈ rows, ∃ j, r.toRecord = .ok j) ∧
    (∀ c : Call, c.Dated → ∀ e, (t.answer c).1 = .error e → e.isConflict = true) ∧
    (∀ new id stamp, ¬ (Call.insert new id stamp).Dated →
      (t.answer (.insert new id stamp)).1 = .ok id →
      ∃ fault, ((t.answer (.insert new id stamp)).2.answer (.get id)).1 =
        .error (.unreadable fault)) ∧
    ∀ job : JobRecord, ¬ job.Dated →
      ∃ fault, ((t.answer (.saveJob job)).2.answer .loadJobs).1 = .error (.unreadable fault) := by
  intro t
  have h : t.Legible := Legible.empty.run hdated
  obtain ⟨s, hs⟩ := h.messages
  obtain ⟨rows, hrows, hmade⟩ := h.jobs
  refine ⟨⟨_, hs.shown ▸ rows_showing t s, fun r hr => ?_⟩, ⟨rows, by rw [jobRows, hrows],
    fun r hr => ?_⟩, fun c hc => (h.step hc).1, fun new id stamp hundated hstored => ?_,
    fun job hundated => h.saveJob_undated hundated⟩
  · obtain ⟨m, hm, rfl⟩ := List.mem_map.mp hr
    exact ⟨m, MessageRow.toMessage_ofMessage (hs.legible m hm)⟩
  · obtain ⟨j, hj, rfl⟩ := hmade r hr
    exact JobRow.toRecord_dated hj
  · obtain ⟨raw, hread⟩ := h.insert_undated hundated hstored
    exact ⟨.timestamp raw, hread⟩

/-- A message that is claimed in the last second of the year 9999. -/
theorem reads_back_claimed :
    let last : Instant := ⟨253402300799, 0, by decide⟩
    let calls : List Call := [.insert { payload := [1], expiresAt := some last } ⟨.ofNat 1⟩ .epoch,
      .claim [] ⟨"a"⟩ last]
    ∃ rows, (afterAll answer .empty calls).rows = .ok rows ∧
      ∀ r ∈ rows, ∃ m, r.toMessage = .ok m := by
  intro last calls
  exact (reads_back calls (by decide)).1

/-- A message that is visible from the year 10000 on is stored, and cannot be read again. -/
theorem not_forall_reads_back :
    ¬ ∀ (calls : List Call) (c : Call) (fault : Unreadable),
      ((afterAll answer .empty calls).answer c).1 ≠ .error (.unreadable fault) := by
  intro hall
  let late : Instant := ⟨253402300800, 0, by decide⟩
  let new : NewMessage := { payload := [97], visibleAfter := some late }
  refine hall [.insert new ⟨.ofNat 1⟩ .epoch] (.get ⟨.ofNat 1⟩)
    (.timestamp "+10000-01-01T00:00:00.000000Z") ?_
  decide +kernel

end Table

end WorkQueue
