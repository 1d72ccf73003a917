import Mathlib
import WorkQueue.Proofs.Store.Jobs
import WorkQueue.Store.Backend

/-! # Stores of either kind

Seen from outside, a store of either kind holds messages as the store in memory does, and what a
call does to them is one of the effects. A table cuts the times that it is given and takes years of
four digits only.
-/

namespace WorkQueue.Backend

open Instant (micros)

/-- The store holds the messages of a store in memory, with times cut by a function. -/
inductive Holds : (cut : Instant → Instant) → Backend → Memory → Prop
  | memory {s : Memory} : Holds id (.memory s) s
  | table {t : Table} {s : Memory} (shown : t.showing s = t) : Holds micros (.table t) s

variable {cut : Instant → Instant} {b : Backend} {s : Memory} {log : List Entry} {c c' : Call}

theorem Holds.lt_of_cut (h : b.Holds cut s) {x y : Instant} (hxy : cut x < cut y) : x < y := by
  cases h with
  | memory => exact hxy
  | table => exact Instant.lt_of_micros_lt hxy

/-- What is known of the messages in a table: times that a column tells. -/
def Keeps (b : Backend) (log : List Entry) (s : Memory) : Prop :=
  ∀ t, b = .table t → s.Recorded log

/-- The times of a call are such that the store tells them apart. -/
def Takes (b : Backend) (c : Call) : Prop := ∀ t, b = .table t → c.Dated

theorem changed?_jobCall (h : c.isJobCall = true) (r : c.Reply) :
    Entry.changed? ⟨c, r⟩ = none ∧ Entry.completed? ⟨c, r⟩ = none ∧ Entry.found ⟨c, r⟩ = [] := by
  cases c with
  | saveJob | loadJobs | removeJob | recordFired => exact ⟨rfl, rfl, rfl⟩
  | _ => cases h

/-- What an admissible call does to the messages of a store, and what it is answered. -/
theorem Holds.answer (h : b.Holds cut s) (hs : s.Sound log) (hr : b.Keeps log s)
    (hc : c.Admissible log) (hdated : b.Takes c) :
    ∃ s', Effect cut s c (b.answer c).1 s' ∧ (b.answer c).2.Holds cut s' ∧
      (b.answer c).2.Keeps (log ++ [⟨c, (b.answer c).1⟩]) s' := by
  cases h with
  | memory =>
      exact ⟨(s.answer c).2, Memory.answer_effect hs.distinct c, .memory, fun t ht => by cases ht⟩
  | @table t _ hshown =>
      -- whatever a table answers to calls on jobs from its own rows, no message changes
      have hall : ∃ s', Effect micros s c (t.answer c).1 s' ∧ (t.answer c).2.showing s' =
          (t.answer c).2 := by
        cases hjob : c.isJobCall with
        | false =>
            have hagrees := Table.agrees t hs (hr t rfl) hc (hdated t rfl) hjob
            rw [Table.Agrees, hshown] at hagrees
            rw [hagrees]
            exact ⟨_, Memory.answerThrough_effect micros hs.distinct c, rfl⟩
        | true =>
            obtain ⟨jobs, ht⟩ := t.jobCall_only_jobs hjob
            obtain ⟨hchanged, hcompleted, hfound⟩ := changed?_jobCall hjob (t.answer c).1
            refine ⟨s, .kept rfl rfl hchanged hfound (by simp [hcompleted]), ?_⟩
            rw [ht, ← hshown]
            rfl
      obtain ⟨s', heffect, hshown'⟩ := hall
      refine ⟨s', heffect, .table hshown', fun t' ht' => ?_⟩
      exact (hr t rfl).step hs (hdated t rfl) heffect

theorem takes_answer (h : (b.answer c).2.Takes c') : b.Takes c' := by
  cases b with
  | memory s => exact fun t ht => by cases ht
  | table t => exact fun _ _ => h (t.answer c).2 rfl

theorem Holds.get (h : b.Holds cut s) (hr : b.Keeps log s) (id : MessageId) :
    (b.answer (.get id)).1 = .ok (s.find? id) := by
  cases h with
  | memory => rfl
  | @table t _ hshown =>
      have hagrees := Table.get_agrees t (hr t rfl).stored id
      rw [Table.Agrees, hshown] at hagrees
      exact congrArg Prod.fst hagrees

theorem Holds.heartbeat (h : b.Holds cut s) (hs : s.Sound log) (hr : b.Keeps log s) {m : Message}
    (hfind : s.find? m.id = some m) (hheld : m.status = .processing) {token : Owner}
    (howned : m.ownerToken = some token) (now : Instant) :
    (b.answer (.heartbeat m.id token now)).1 = .ok () := by
  have hmemory (now : Instant) : (s.heartbeat m.id token now).1 = .ok () := by
    simp only [Memory.heartbeat, hfind, hheld, Message.isOwnedBy_iff.mpr howned]
    rfl
  cases h with
  | memory => exact hmemory now
  | @table t _ hshown =>
      have hagrees := Table.heartbeat_agrees t hs.distinct (hr t rfl).stored m.id token now
      rw [Table.Agrees, hshown] at hagrees
      exact (congrArg Prod.fst hagrees).trans (hmemory now.micros)

theorem Holds.answer_same (h : b.Holds cut s) (hagrees : ∀ t, b = .table t → t.Agrees s c)
    (hsame : (s.answerThrough cut c).2 = s) : b.answer c = ((s.answerThrough cut c).1, b) := by
  cases h with
  | memory =>
      rw [Memory.answerThrough_id] at hsame ⊢
      simp only [Backend.answer, hsame]
  | @table t _ hshown =>
      have h := hagrees t rfl
      rw [Table.Agrees, hsame, hshown] at h
      simp only [Backend.answer, h]

end WorkQueue.Backend
