import Mathlib
import WorkQueue.Proofs.Store.Jobs

/-! # Moves of the stored messages

What any call does to the messages of a store, whatever its caller holds: a lease may be taken back
for a snapshot that no scan ever found. A message comes back from error only where no other message
blocks it. A table whose rows read goes on having such rows as long as its calls are dated.
-/

namespace WorkQueue

/-- The store after calls that are made one after the other. -/
def afterAll {σ : Type} (answer : σ → (c : Call) → c.Reply × σ) (store : σ)
    (calls : List Call) : σ :=
  calls.foldl (fun store c => (answer store c).2) store

theorem Message.Fits.inState {m m' : Message} (hm : m.Fits) (hbeat : m'.lastHeartbeat = none)
    (hretry : m'.retryCount < UInt32.size) : (m.inState m').Fits where
  visibleAfter := hm.visibleAfter
  expiresAt := hm.expiresAt
  lastHeartbeat := by simp [Message.inState, hbeat]
  slot := hm.slot
  enqueuedAt := hm.enqueuedAt
  retryCount := hretry

namespace Memory

/-- The messages of a store after a call: as they were, one more, one changed, or some deleted. -/
inductive Moves (s : Memory) (c : Call) : Memory → Prop
  | kept {s' : Memory} (messages : s'.messages = s.messages) : Moves s c s'
  /-- Nothing blocks the new message. -/
  | added {s' : Memory} {m : Message} (messages : s'.messages = s.messages ++ [m])
      (inserted : c.insertedId? = some m.id) (free : isBlocked s.messages m.job = false) :
      Moves s c s'
  /-- The changed message was unconsumed, or nothing blocks it. -/
  | changed {m m' : Message} (stored : m ∈ s.messages) (id : m'.id = m.id) (job : m'.job = m.job)
      (free : m.IsUnconsumed ∨ isBlocked (s.messages.filter (·.id ≠ m.id)) m'.job = false) :
      Moves s c (s.put m')
  | deleted (p : Message → Bool) : Moves s c { s with messages := s.messages.filter p }

variable {cut : Instant → Instant} {s s' : Memory} {c : Call} {r : c.Reply}

theorem Moves.origin (h : s.Moves c s') {m : Message} (hm : m ∈ s'.messages) :
    (∃ a ∈ s.messages, a.id = m.id) ∨ c.insertedId? = some m.id := by
  cases h with
  | kept hmessages => exact .inl ⟨m, hmessages ▸ hm, rfl⟩
  | added hmessages hinserted =>
      rw [hmessages] at hm
      rcases List.mem_append.mp hm with hm | hm
      · exact .inl ⟨m, hm, rfl⟩
      · obtain rfl := List.mem_singleton.mp hm
        exact .inr hinserted
  | changed hstored hid =>
      rcases (mem_put hstored hid).mp hm with rfl | ⟨hm, -⟩
      · exact .inl ⟨_, hstored, hid.symm⟩
      · exact .inl ⟨m, hm, rfl⟩
  | deleted => exact .inl ⟨m, List.mem_of_mem_filter hm, rfl⟩

theorem moves_of_effect (h : Effect cut s c r s') : s.Moves c s' := by
  cases h with
  | kept hmessages => exact .kept hmessages
  | scanned => exact .kept rfl
  | added hfree => exact .added rfl rfl hfree
  | changed hfind hchange hfree =>
      exact .changed (find?_some hfind).1 hchange.keeps.id hchange.keeps.job
        (hchange.unconsumed_or_error.imp_right hfree)
  | purged => exact .deleted _

end Memory

/-- The reply is a result, or an error that callers expect. -/
def Expected {α : Type} (r : Except StoreError α) : Prop := ∀ e, r = .error e → e.isConflict = true

theorem Expected.ok {α : Type} (a : α) : Expected (.ok a) := fun _ h => by cases h

theorem Expected.conflict {α : Type} {e : StoreError} (h : e.isConflict = true) :
    Expected (.error e : Except StoreError α) := fun _ he => Except.error.inj he ▸ h

theorem Memory.answer_expected (s : Memory) (c : Call) : Expected (s.answer c).1 := by
  cases c with
  | insert =>
      unfold answer insert
      dsimp only
      split
      · split
        · exact .conflict rfl
        · exact .ok _
      · exact .ok _
  | claim =>
      unfold answer claim
      dsimp only
      split <;> exact .ok _
  | heartbeat =>
      unfold answer heartbeat
      dsimp only
      split
      · exact .conflict rfl
      · split
        · exact .conflict rfl
        · split
          · exact .conflict rfl
          · exact .ok _
  | complete =>
      unfold answer complete
      dsimp only
      split
      · exact .conflict rfl
      · split
        · exact .ok _
        · split
          · exact .ok _
          · exact .conflict rfl
  | fail =>
      unfold answer fail
      dsimp only
      split
      · exact .conflict rfl
      · split
        · exact .ok _
        · exact .conflict rfl
  | _ => exact .ok _

namespace Table

open Instant (micros)
open MessageRow (ofMessage)

/-- The rows of the table are those of the messages in memory, and all of them read. -/
structure Reads (t : Table) (s : Memory) : Prop where
  shown : t.showing s = t
  distinct : s.Distinct
  legible : s.Legible

theorem Reads.empty : Reads .empty .empty where
  shown := rfl
  distinct := List.nodup_nil
  legible := by simp [Memory.Legible, Memory.empty]

variable {t : Table} {s s' : Memory} {c : Call}

theorem Reads.put (h : t.Reads s) {m m' : Message} (hm : m ∈ s.messages) (hid : m'.id = m.id)
    (hfits : m'.Fits) : (t.showing (s.put m')).Reads (s.put m') where
  shown := rfl
  distinct := h.distinct.put hm hid
  legible := fun a ha => by
    rcases (Memory.mem_put hm hid).mp ha with rfl | ⟨ha, -⟩
    · exact hfits
    · exact h.legible a ha

/-- Writing a snapshot back changes the state of a leased message, whatever the snapshot says. -/
theorem Reads.recover (h : t.Reads s) (c : Call) {scanned moved : Message}
    (hid : moved.id = scanned.id) (hbeat : moved.lastHeartbeat = none)
    (hretry : moved.retryCount < UInt32.size) :
    Expected (t.recover scanned moved).1 ∧
      ∃ s', s.Moves c s' ∧ (t.recover scanned moved).2.Reads s' ∧
        (t.recover scanned moved).2.jobs = t.jobs := by
  rw [← h.shown]
  simp only [Table.recover, guarded, rows_showing, ok_bind]
  cases hfind : s.find? scanned.id with
  | none =>
      rw [write_missed t h.distinct fun m hm => by rw [hid, hfind] at hm; cases hm]
      exact ⟨.ok _, s, .kept rfl, h.shown.symm ▸ h, rfl⟩
  | some m =>
      obtain ⟨hm, hsame⟩ := Memory.find?_some hfind
      by_cases hunchanged : (ofMessage m).leaseUnchanged scanned = true
      · have hheld : m.status = .processing := by
          simp only [MessageRow.leaseUnchanged, Bool.and_eq_true, ofMessage] at hunchanged
          have := (MessageRow.processing_text m.status).symm.trans hunchanged.1.1
          exact beq_iff_eq.mp this
        rw [write_found t h.distinct hm (hid.trans hsame.symm) (p := (·.leaseUnchanged scanned))
          hunchanged]
        have hfits : (m.inState moved).Fits := (h.legible m hm).inState hbeat hretry
        split_ifs
        · exact ⟨.conflict rfl, s, .kept rfl, h.shown.symm ▸ h, rfl⟩
        · exact ⟨.ok _, s.put (m.inState moved), .changed hm rfl rfl (.inl (.inr hheld)),
            h.put hm rfl hfits, rfl⟩
      · rw [write_missed t h.distinct fun a ha => ?_]
        · exact ⟨.ok _, s, .kept rfl, h.shown.symm ▸ h, rfl⟩
        · rw [hid, hfind] at ha
          obtain rfl := Option.some.inj ha
          exact Bool.eq_false_iff.mpr hunchanged

theorem Reads.insert_used (h : t.Reads s) {m : Message} (hm : m ∈ s.messages) (new : NewMessage)
    (stamp : Instant) : t.insert new m.id stamp = (.error (taken new.job m.id), t) := by
  have hclash : (s.messages.map ofMessage).any
      (·.clashes (ofMessage (new.toMessage m.id (s.lastSequence + 1) stamp))) = true := by
    rw [List.any_map, List.any_eq_true]
    refine ⟨m, hm, ?_⟩
    simp only [Function.comp_apply, MessageRow.clashes, ofMessage, NewMessage.toMessage,
      decide_true, Bool.true_or]
  rw [← h.shown, insert_showing, if_pos hclash]

theorem Reads.of_agrees (h : t.Reads s) (hdated : c.Dated)
    (hfresh : ∀ id ∈ c.insertedId?, ∀ m ∈ s.messages, m.id ≠ id) (hagrees : t.Agrees s c) :
    Expected (t.answer c).1 ∧
      ∃ s', s.Moves c s' ∧ (t.answer c).2.Reads s' ∧ (t.answer c).2.jobs = t.jobs := by
  have heffect := Memory.answerThrough_effect micros h.distinct c
  rw [Agrees, h.shown] at hagrees
  rw [hagrees]
  refine ⟨?_, _, Memory.moves_of_effect heffect,
    ⟨rfl, heffect.distinct h.distinct hfresh, fun m' hm' => ?_⟩, rfl⟩
  · cases c <;> exact Memory.answer_expected _ _
  · rcases heffect.origin hm' with hm | ⟨m, hm, hchange⟩ | ⟨new, id, stamp, rfl, rfl⟩
    · exact h.legible m' hm
    · exact hchange.fits (h.legible m hm) hdated
    · exact Message.toMessage_fits hdated _

/-- A dated call on messages is answered by a result or a conflict, and leaves rows that read. -/
theorem Reads.step (h : t.Reads s) (hdated : c.Dated) (hjob : c.isJobCall = false) :
    Expected (t.answer c).1 ∧
      ∃ s', s.Moves c s' ∧ (t.answer c).2.Reads s' ∧ (t.answer c).2.jobs = t.jobs := by
  have hagreed (hnone : c.insertedId? = none) (hagrees : t.Agrees s c) :=
    h.of_agrees hdated (by simp [hnone]) hagrees
  cases c with
  | insert new id stamp =>
      by_cases hused : ∃ m ∈ s.messages, m.id = id
      · obtain ⟨m, hm, rfl⟩ := hused
        change Expected (t.insert new m.id stamp).1 ∧
          ∃ s', s.Moves _ s' ∧ (t.insert new m.id stamp).2.Reads s' ∧
            (t.insert new m.id stamp).2.jobs = t.jobs
        rw [h.insert_used hm]
        exact ⟨.conflict rfl, s, .kept rfl, h, rfl⟩
      · have hfresh : ∀ m ∈ s.messages, m.id ≠ id := fun m hm hid => hused ⟨m, hm, hid⟩
        refine h.of_agrees hdated ?_ (insert_agrees t h.legible hfresh hdated)
        intro a ha
        exact Option.some.inj ha ▸ hfresh
  | claim => exact hagreed rfl (claim_agrees t h.distinct h.legible hdated)
  | heartbeat => exact hagreed rfl (heartbeat_agrees t h.distinct h.legible _ _ _)
  | complete => exact hagreed rfl (complete_agrees t h.distinct h.legible _ _)
  | fail => exact hagreed rfl (fail_agrees t h.distinct h.legible _ _ _)
  | scan => exact hagreed rfl (scan_agrees t h.legible hdated)
  | reset => exact h.recover _ rfl rfl (Message.nextRetry_lt _)
  | poison => exact h.recover _ rfl rfl (Message.nextRetry_lt _)
  | requeue => exact hagreed rfl (requeue_agrees t h.distinct h.legible _)
  | purge => exact hagreed rfl (purge_agrees t h.legible hdated)
  | get => exact hagreed rfl (get_agrees t h.legible _)
  | countForJob => exact hagreed rfl (countForJob_agrees t s _)
  | saveJob | loadJobs | removeJob | recordFired => cases hjob

theorem Reads.jobCall (h : t.Reads s) (hjob : c.isJobCall = true) : (t.answer c).2.Reads s := by
  obtain ⟨jobs, ht⟩ := t.jobCall_only_jobs hjob
  refine ⟨?_, h.distinct, h.legible⟩
  rw [ht, ← h.shown]
  rfl

end Table

end WorkQueue
