import Mathlib
import WorkQueue.Lease.Monitor
import WorkQueue.Proofs.Lease.Purging

/-! # A recovery pass without interruption

Nothing changes under a pass that is not interrupted, so the lease of every message is still the one
that its scan saw. Each message that was found is changed once, and what is left of the snapshots is
still in the store. A changed message is not processing, so a second pass finds nothing.
-/

namespace WorkQueue

namespace Message

/-- The message is processing and its lease was last renewed before `cutoff`. -/
def isStale (m : Message) (cutoff : Instant) : Bool :=
  m.status == .processing && m.lastHeartbeat.any (fun t => decide (t < cutoff))

/-- What a pass makes of a message whose lease expired. -/
def recovered (maxRetries : UInt32) (m : Message) : Message :=
  if maxRetries.toNat ≤ m.retryCount + 1 then m.poisoned tooManyExpiries else m.reclaimed

/-- The lease was taken back and one more retry counted, in the field and in its header. -/
structure TakenBack (m m' : Message) : Prop extends m.Keeps m' where
  owner : m'.ownerToken = none
  beat : m'.lastHeartbeat = none
  retryCount : m'.retryCount = m.retryCount + 1
  retryText : m'.headers.getText? retryHeader = some (Numeral.text (m.retryCount + 1))
  requeued : m'.requeued = m.requeued

/-- What a pass leaves of a message. -/
inductive Swept (cutoff : Instant) (maxRetries : UInt32) (m : Message) : Message → Prop
  | live (live : m.isStale cutoff = false) : Swept cutoff maxRetries m m
  | reset {m' : Message} (stale : m.isStale cutoff = true)
      (few : m.retryCount + 1 < maxRetries.toNat) (taken : m.TakenBack m')
      (waiting : m'.status = .waiting)
      (headers : m'.headers.without [retryHeader] = m.headers.without [retryHeader]) :
      Swept cutoff maxRetries m m'
  | poisoned {m' : Message} (stale : m.isStale cutoff = true)
      (many : maxRetries.toNat ≤ m.retryCount + 1) (taken : m.TakenBack m')
      (error : m'.status = .error) (reason : m'.errorReason? = some tooManyExpiries) :
      Swept cutoff maxRetries m m'

variable {m : Message} {cutoff : Instant} {maxRetries : UInt32}

/-- A message that is processing has a heartbeat, so its lease expired only if that is old. -/
theorem Coherent.isStale_eq (h : m.Coherent) (cutoff : Instant) :
    m.isStale cutoff = m.leaseExpired cutoff := by
  rw [isStale, leaseExpired]
  cases hstatus : m.status with
  | processing =>
      obtain ⟨beat, hbeat⟩ := Option.isSome_iff_exists.mp (h.held.mp hstatus).2
      rw [hbeat]
      rfl
  | waiting | complete | error => rfl

theorem recovered_id (maxRetries : UInt32) (m : Message) : (m.recovered maxRetries).id = m.id := by
  unfold recovered
  split <;> rfl

theorem recovered_status (maxRetries : UInt32) (m : Message) :
    (m.recovered maxRetries).status ≠ .processing := by
  unfold recovered
  split <;> exact nofun

theorem isStale_recovered (maxRetries : UInt32) (m : Message) (cutoff : Instant) :
    (m.recovered maxRetries).isStale cutoff = false := by
  simp [isStale, recovered_status maxRetries m]

theorem nextRetry_of_room (hfull : m.retriesFull = false) : m.nextRetry = m.retryCount + 1 :=
  nextRetry_eq (by simpa [retriesFull] using hfull)

theorem reclaimed_takenBack (hfull : m.retriesFull = false) : m.TakenBack m.reclaimed where
  toKeeps := keeps_of_headers (Headers.without_setText (by decide) _ _)
  owner := rfl
  beat := rfl
  retryCount := nextRetry_of_room hfull
  retryText := by
    rw [← nextRetry_of_room hfull]
    exact Headers.getText?_setText_self _ _ _
  requeued := rfl

theorem poisoned_takenBack (hfull : m.retriesFull = false) (reason : String) :
    m.TakenBack (m.poisoned reason) where
  toKeeps := by
    refine keeps_of_headers ?_
    rw [Headers.without_setText (by decide)]
    exact Headers.without_setText (by decide) _ _
  owner := rfl
  beat := rfl
  retryCount := nextRetry_of_room hfull
  retryText := by
    have hne : retryHeader ≠ errorHeader := by decide
    rw [← nextRetry_of_room hfull]
    exact (Headers.getText?_setText_of_ne _ hne _).trans (Headers.getText?_setText_self _ _ _)
  requeued := rfl

theorem swept_recovered (hstale : m.isStale cutoff = true) (hfull : m.retriesFull = false)
    (maxRetries : UInt32) : Swept cutoff maxRetries m (m.recovered maxRetries) := by
  unfold recovered
  split
  · rename_i hmany
    exact .poisoned hstale hmany (poisoned_takenBack hfull _) rfl
      (Headers.getText?_setText_self _ _ _)
  · rename_i hfew
    exact .reset hstale (by omega) (reclaimed_takenBack hfull) rfl
      (Headers.without_setText (by decide) _ _)

end Message

namespace Monitor

open RecoveryReport

variable {S : Type} {maxRetries : UInt32} {s : Memory} {todo : List Message}

/-- The snapshots that a pass has yet to try: each is still in the store and is processing, and none
stands twice. -/
structure Awaits (todo : List Message) (s : Memory) : Prop where
  stored : ∀ m ∈ todo, m ∈ s.messages
  held : ∀ m ∈ todo, m.status = .processing
  once : (todo.map (·.id)).Nodup

theorem Awaits.scan (hd : s.Distinct) (cutoff : Instant) : Awaits (s.scan cutoff) s where
  stored _ hm := List.mem_of_mem_filter hm
  held _ hm := Message.leaseExpired_processing (List.mem_filter.mp hm).2
  once := hd.sublist (List.filter_sublist.map _)

theorem Awaits.next {m : Message} (h : Awaits (m :: todo) s) {m' : Message} (hid : m'.id = m.id) :
    Awaits todo (s.put m') where
  stored a ha := by
    have hne : a.id ≠ m.id := fun heq =>
      (List.nodup_cons.mp h.once).1 (List.mem_map.mpr ⟨a, ha, heq⟩)
    exact (Memory.mem_put (h.stored m List.mem_cons_self) hid).mpr
      (.inr ⟨h.stored a (List.mem_cons_of_mem m ha), hne⟩)
  held a ha := h.held a (List.mem_cons_of_mem m ha)
  once := (List.nodup_cons.mp h.once).2

/-- The report with one more message counted. -/
def tally (maxRetries : UInt32) (report : RecoveryReport) (m : Message) : RecoveryReport :=
  if maxRetries.toNat ≤ m.retryCount + 1 then { report with poisoned := report.poisoned + 1 }
  else { report with reset := report.reset + 1 }

theorem recoverEach_next (hd : s.Distinct) {m : Message} (h : Awaits (m :: todo) s)
    (hfull : m.retriesFull = false) (report : RecoveryReport) (w : S) :
    (recoverEach maxRetries (m :: todo) report).run Memory.answer s w =
      (recoverEach maxRetries todo (tally maxRetries report m)).run Memory.answer
        (s.put (m.recovered maxRetries)) w := by
  have hm := h.stored m List.mem_cons_self
  have hheld := h.held m List.mem_cons_self
  have htaken {f : Message → Message} (hf : (f m).id = m.id) :
      s.recover m f = (true, s.put (f m)) := by
    have hsame : m.leaseUnchanged m = true := Message.leaseUnchanged_iff.mpr ⟨hheld, rfl, rfl⟩
    simp only [Memory.recover, hd.find?_of_mem hm, hsame, if_true, hd.modify_eq_put hm hf]
  rw [recoverEach, if_neg (by simp [hfull])]
  by_cases hmany : maxRetries.toNat ≤ m.retryCount + 1
  · have hanswer : s.answer (.poison m Message.tooManyExpiries) =
        (.ok true, s.put (m.poisoned Message.tooManyExpiries)) := by
      simp only [Memory.answer, htaken (f := (·.poisoned _)) rfl]
    simp only [if_pos hmany, tally, Message.recovered]
    rw [Procedure.run_ask_bind hanswer]
  · have hanswer : s.answer (.reset m) = (.ok true, s.put m.reclaimed) := by
      simp only [Memory.answer, htaken (f := (·.reclaimed)) rfl]
    simp only [if_neg hmany, tally, Message.recovered]
    rw [Procedure.run_ask_bind hanswer]

theorem recoverEach_run (hd : s.Distinct) (h : Awaits todo s)
    (hfull : ∀ m ∈ todo, m.retriesFull = false) (report : RecoveryReport) (w : S) :
    (recoverEach maxRetries todo report).run Memory.answer s w =
      (.ok (todo.foldl (tally maxRetries) report),
        todo.foldl (fun s m => s.put (m.recovered maxRetries)) s, w) := by
  induction todo generalizing s report with
  | nil => rfl
  | cons m todo ih =>
      have hid := m.recovered_id maxRetries
      rw [recoverEach_next hd h (hfull m List.mem_cons_self), List.foldl_cons, List.foldl_cons]
      exact ih (hd.put (h.stored m List.mem_cons_self) hid) (h.next hid)
        (fun a ha => hfull a (List.mem_cons_of_mem m ha)) _

theorem recoverEach_full (hd : s.Distinct) (h : Awaits todo s)
    (hfull : ∃ m ∈ todo, m.retriesFull = true) (report : RecoveryReport) (w : S) :
    ((recoverEach maxRetries todo report).run Memory.answer s w).1 = .error .overflow := by
  induction todo generalizing s report with
  | nil => simp at hfull
  | cons m todo ih =>
      cases hm : m.retriesFull with
      | true =>
          rw [recoverEach, if_pos hm]
          rfl
      | false =>
          have hid := m.recovered_id maxRetries
          rw [recoverEach_next hd h hm]
          exact ih (hd.put (h.stored m List.mem_cons_self) hid) (h.next hid)
            (by simpa [hm] using hfull) _

theorem foldl_put_recovered (hd : s.Distinct) (h : Awaits todo s) :
    todo.foldl (fun s m => s.put (m.recovered maxRetries)) s =
      { s with messages := s.messages.map fun a =>
          if a ∈ todo then a.recovered maxRetries else a } := by
  induction todo generalizing s with
  | nil => simp
  | cons m todo ih =>
      have hm := h.stored m List.mem_cons_self
      have hid := m.recovered_id maxRetries
      have hchanged : m.recovered maxRetries ∉ todo := fun hmem =>
        m.recovered_status maxRetries (h.held _ (List.mem_cons_of_mem m hmem))
      have hmap : ∀ a ∈ s.messages,
          ((fun a => if a ∈ todo then a.recovered maxRetries else a) ∘
            fun a => if a.id = (m.recovered maxRetries).id then m.recovered maxRetries else a) a =
            if a ∈ m :: todo then a.recovered maxRetries else a := by
        intro a ha
        rw [Function.comp_apply, hid]
        by_cases heq : a.id = m.id
        · obtain rfl := hd.eq_of_id ha hm heq
          simp [hchanged]
        · have hne : a ≠ m := fun h => heq (congrArg Message.id h)
          simp [heq, hne]
      rw [List.foldl_cons, ih (hd.put hm hid) (h.next hid), Memory.put_messages, List.map_map,
        List.map_congr_left hmap]
      rfl

theorem foldl_tally (todo : List Message) (report : RecoveryReport) :
    todo.foldl (tally maxRetries) report =
      ⟨report.reset + todo.countP (fun m => m.retryCount + 1 < maxRetries.toNat),
        report.poisoned + todo.countP (fun m => maxRetries.toNat ≤ m.retryCount + 1),
        report.skipped⟩ := by
  induction todo generalizing report with
  | nil => rfl
  | cons m todo ih =>
      rw [List.foldl_cons, ih, tally, List.countP_cons, List.countP_cons]
      split <;> rename_i hmany
      · simp [hmany, not_lt.mpr hmany]
        omega
      · simp [hmany, not_le.mp hmany]
        omega

/-- The store after a pass that gets through. -/
def swept (cutoff : Instant) (maxRetries : UInt32) (s : Memory) : Memory :=
  { s with messages := s.messages.map fun m =>
      if m.leaseExpired cutoff then m.recovered maxRetries else m }

theorem scan_swept (cutoff : Instant) (maxRetries : UInt32) (s : Memory) :
    (swept cutoff maxRetries s).scan cutoff = [] := by
  simp only [Memory.scan, swept, List.filter_eq_nil_iff, List.forall_mem_map]
  intro m _
  split
  · simp [Message.leaseExpired, m.recovered_status maxRetries]
  · assumption

/-- A pass over messages with room for one more retry changes all whose leases expired. -/
theorem recoverEach_scan (hd : s.Distinct) {cutoff : Instant}
    (hfull : ∀ m ∈ s.scan cutoff, m.retriesFull = false) (w : S) :
    (recoverEach maxRetries (s.scan cutoff) {}).run Memory.answer s w =
      (.ok ⟨(s.scan cutoff).countP (fun m => m.retryCount + 1 < maxRetries.toNat),
        (s.scan cutoff).countP (fun m => maxRetries.toNat ≤ m.retryCount + 1), 0⟩,
        swept cutoff maxRetries s, w) := by
  have hawaits := Awaits.scan hd cutoff
  have hmap : ∀ m ∈ s.messages, (if m ∈ s.scan cutoff then m.recovered maxRetries else m) =
      if m.leaseExpired cutoff then m.recovered maxRetries else m := by
    intro m hm
    simp [Memory.scan, hm]
  rw [recoverEach_run hd hawaits hfull, foldl_tally, foldl_put_recovered hd hawaits,
    List.map_congr_left hmap, swept]
  simp

theorem recover_run {config : MonitorConfig} {now : Instant} {threshold : Span} {cutoff : Instant}
    (hthreshold : Span.ofDuration? config.threshold = some threshold)
    (hcutoff : now.shift? (-threshold) = some cutoff) (s : Memory) (w : S) :
    (recover config now).run Memory.answer s w =
      (recoverEach config.maxRetries (s.scan cutoff) {}).run Memory.answer s w := by
  rw [recover, hthreshold]
  simp only [hcutoff]
  rfl

end Monitor

theorem Memory.after_coherent {calls : List Call}
    (hfresh : (calls.filterMap Call.insertedId?).Nodup) :
    ∀ m ∈ (Memory.after calls).messages, m.Coherent := by
  induction calls using List.reverseRecOn with
  | nil => simp [Memory.after, Memory.empty]
  | append_singleton calls c ih =>
      have hprefix : (calls.filterMap Call.insertedId?).Nodup := by
        rw [List.filterMap_append, List.nodup_append] at hfresh
        exact hfresh.1
      rw [Memory.after_append]
      intro m' hm'
      rcases (Memory.answer_effect (Memory.after_distinct hprefix) c).origin hm' with
        hm | ⟨m, hm, hchange⟩ | ⟨new, id, stamp, -, rfl⟩
      · exact ih hprefix m' hm
      · exact hchange.coherent (ih hprefix m hm)
      · exact Memory.toMessage_coherent _ _ _ _

namespace Monitor

/-- A pass that is not interrupted takes back every expired lease and leaves all other messages as
they are; its report counts just these, and a second pass at the same time finds nothing to do. What
may stop it is a message with no room for one more retry, and no message comes to that in fewer calls
than a word of 32 bits counts. -/
theorem recover_exact {S : Type} {calls : List Call}
    (hfresh : (calls.filterMap Call.insertedId?).Nodup) {config : MonitorConfig} {now : Instant}
    {threshold : Span} {cutoff : Instant}
    (hthreshold : Span.ofDuration? config.threshold = some threshold)
    (hcutoff : now.shift? (-threshold) = some cutoff) (w : S) :
    let s := Memory.after calls
    let stale := s.messages.filter (·.isStale cutoff)
    let pass (s : Memory) := (recover config now).run Memory.answer s w
    ((∃ m ∈ stale, m.retriesFull = true) →
      UInt32.size ≤ calls.length ∧ (pass s).1 = .error .overflow) ∧
    ((∀ m ∈ stale, m.retriesFull = false) → ∃ s', pass s =
        (.ok ⟨stale.countP (fun m => m.retryCount + 1 < config.maxRetries.toNat),
          stale.countP (fun m => config.maxRetries.toNat ≤ m.retryCount + 1), 0⟩, s', w) ∧
      List.Forall₂ (Message.Swept cutoff config.maxRetries) s.messages s'.messages ∧
      (∀ m ∈ s'.messages, m.isStale cutoff = false) ∧
      s'.jobs = s.jobs ∧ s'.lastSequence = s.lastSequence ∧
      pass s' = (.ok {}, s', w)) := by
  intro s stale pass
  have hd := Memory.after_distinct hfresh
  have hcoherent := Memory.after_coherent hfresh
  have hscan : s.scan cutoff = stale :=
    List.filter_congr fun m hm => ((hcoherent m hm).isStale_eq cutoff).symm
  constructor
  · rintro ⟨m, hm, hfull⟩
    constructor
    · by_contra hlen
      have htracked := Memory.Tracked.after (Nat.le_of_lt (not_le.mp hlen)) hfresh
      have hretries := htracked.retries m (List.mem_of_mem_filter hm)
      simp only [Message.retriesFull, decide_eq_true_eq] at hfull
      omega
    · simp only [pass, recover_run hthreshold hcutoff]
      exact recoverEach_full hd (Awaits.scan hd cutoff) ⟨m, hscan ▸ hm, hfull⟩ _ w
  · intro hfull
    refine ⟨swept cutoff config.maxRetries s, ?_, ?_, ?_, rfl, rfl, ?_⟩
    · simp only [pass, recover_run hthreshold hcutoff]
      rw [← hscan] at hfull ⊢
      exact recoverEach_scan hd hfull w
    · rw [swept, List.forall₂_map_right_iff, List.forall₂_same]
      intro m hm
      rw [← (hcoherent m hm).isStale_eq cutoff]
      cases hstale : m.isStale cutoff with
      | false => exact .live hstale
      | true =>
          exact Message.swept_recovered hstale (hfull m (List.mem_filter.mpr ⟨hm, hstale⟩)) _
    · simp only [swept, List.forall_mem_map]
      intro m hm
      rw [← (hcoherent m hm).isStale_eq cutoff]
      cases hstale : m.isStale cutoff with
      | false => simpa using hstale
      | true => simpa using m.isStale_recovered config.maxRetries cutoff
    · simp only [pass, recover_run hthreshold hcutoff, scan_swept]
      rfl

/-- Three leases are held. Of the two that were not renewed in time, one is the second of its
message, which is given up. -/
theorem recover_exact_mixed :
    let waiting := NewMessage.toMessage { payload := [1] } ⟨.ofNat 1⟩ 1 .epoch
    let held := waiting.beginLease ⟨"a"⟩ .epoch
    let now : Instant := ⟨100, 0, by decide⟩
    let calls : List Call := [.insert { payload := [1] } ⟨.ofNat 1⟩ .epoch,
      .claim [] ⟨"a"⟩ .epoch, .reset held, .insert { payload := [2] } ⟨.ofNat 2⟩ .epoch,
      .claim [] ⟨"b"⟩ .epoch, .claim [] ⟨"c"⟩ .epoch,
      .insert { payload := [3] } ⟨.ofNat 3⟩ .epoch, .claim [] ⟨"d"⟩ now]
    let second : Duration := ⟨1, 0, by decide⟩
    let pass (s : Memory) := (recover ⟨second, ⟨10, 0, by decide⟩, second, second, 2⟩ now).run
      Memory.answer s ()
    let first := pass (Memory.after calls)
    first.1 = .ok ⟨1, 1, 0⟩ ∧ pass first.2.1 = (.ok {}, first.2.1, ()) := by
  intro waiting held now calls second pass first
  let config : MonitorConfig := ⟨second, ⟨10, 0, by decide⟩, second, second, 2⟩
  let threshold : Span := ⟨10000000000, by decide⟩
  have hfresh : (calls.filterMap Call.insertedId?).Nodup := by decide +kernel
  have hthreshold : Span.ofDuration? config.threshold = some threshold := by decide +kernel
  have hcutoff : now.shift? (-threshold) = some ⟨90, 0, by decide⟩ := by decide +kernel
  obtain ⟨s', hrun, -, -, -, -, hagain⟩ :=
    (recover_exact hfresh hthreshold hcutoff ()).2 (by decide +kernel)
  have hafter : first.2.1 = s' := congrArg (·.2.1) hrun
  refine ⟨by decide +kernel, ?_⟩
  rw [hafter]
  exact hagain

end Monitor

end WorkQueue
