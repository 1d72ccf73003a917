import Mathlib
import WorkQueue.Message.Basic
import WorkQueue.Proofs.Instant.Order
import WorkQueue.Proofs.Message.Headers

/-! # The moves of a message

What the conditions on a message say about its status, and what each move keeps. No move touches
what a producer gave, except the two headers that the queue keeps for itself.
-/

namespace WorkQueue

instance : LawfulBEq Status where
  eq_of_beq {a b} h := by cases a <;> cases b <;> first | rfl | cases h
  rfl {a} := by cases a <;> rfl

namespace Status

theorem canMoveTo_error {s : Status} : s.canMoveTo .error = true ↔ s = .processing := by
  cases s <;> simp [canMoveTo]

theorem isTerminal_iff {s : Status} : s.isTerminal = true ↔ s = .complete := by
  simp only [isTerminal, beq_iff_eq]

end Status

namespace Message

/-- The message is waiting or processing. -/
def IsUnconsumed (m : Message) : Prop := m.status = .waiting ∨ m.status = .processing

theorem isClaimable_waiting {m : Message} {now : Instant} {routes : List String}
    (h : m.isClaimable now routes = true) : m.status = .waiting := by
  simp only [isClaimable, Bool.and_eq_true, beq_iff_eq] at h
  exact h.1.1.1

theorem isPurgeable_waiting {m : Message} {now : Instant} (h : m.isPurgeable now = true) :
    m.status = .waiting := by
  simp only [isPurgeable, Bool.and_eq_true, beq_iff_eq] at h
  exact h.1

theorem leaseExpired_processing {m : Message} {threshold : Instant}
    (h : m.leaseExpired threshold = true) : m.status = .processing := by
  simp only [leaseExpired, Bool.and_eq_true, beq_iff_eq] at h
  exact h.1

theorem leaseUnchanged_iff {m scanned : Message} :
    m.leaseUnchanged scanned = true ↔ m.status = .processing ∧
      m.ownerToken = scanned.ownerToken ∧ m.lastHeartbeat = scanned.lastHeartbeat := by
  simp only [leaseUnchanged, Bool.and_eq_true, beq_iff_eq, and_assoc]

theorem isOwnedBy_iff {m : Message} {token : Owner} :
    m.isOwnedBy token = true ↔ m.ownerToken = some token := by
  simp only [isOwnedBy, beq_iff_eq]

/-- The message that a requeue makes. -/
def requeuedOf (m : Message) : Message :=
  { m with
    status := .waiting
    requeued := true
    headers := m.headers.erase errorHeader }.countRetry

theorem requeue?_eq_some {m m' : Message} (h : m.requeue? = some m') :
    m.status = .error ∧ m.requeued = false ∧ m.errorReason? ≠ some tooManyExpiries ∧
      m' = m.requeuedOf := by
  simp only [requeue?] at h
  split at h
  · cases h
  · rename_i hno
    simp only [not_or, ne_eq, not_not, Bool.not_eq_true] at hno
    exact ⟨hno.1, hno.2.1, hno.2.2, (Option.some.inj h).symm⟩

theorem nextRetry_lt (m : Message) : m.nextRetry < UInt32.size := Nat.mod_lt _ (by decide)

theorem nextRetry_eq {m : Message} (h : m.retryCount + 1 < UInt32.size) :
    m.nextRetry = m.retryCount + 1 := Nat.mod_eq_of_lt h

end Message

end WorkQueue
