import Mathlib
import WorkQueue.Proofs.Instant.Reader
import WorkQueue.Proofs.Message.Headers
import WorkQueue.Proofs.Uuid

/-! # Messages as rows

A message whose times fit their columns reads back from its row, and every condition on the row says
of the columns what the same condition says of the message.
-/

namespace WorkQueue

/-- The message is told by its row: its times fit their columns and its retry count a word of
32 bits. -/
structure Message.Fits (m : Message) : Prop where
  visibleAfter : ∀ t ∈ m.visibleAfter, t.Exact
  expiresAt : ∀ t ∈ m.expiresAt, t.Exact
  lastHeartbeat : ∀ t ∈ m.lastHeartbeat, t.Exact
  slot : ∀ k ∈ m.job, k.slot.Exact
  enqueuedAt : m.enqueuedAt.Exact
  retryCount : m.retryCount < UInt32.size

theorem ok_bind {ε α β : Type} (a : α) (f : α → Except ε β) : (Except.ok a >>= f) = f a := rfl

theorem read_map {α ρ κ : Type} {row : α → ρ} (cells : ρ → Except StoreError κ)
    (decode : ρ → κ → Except StoreError α) (cellsOf : α → κ) {xs : List α}
    (hcells : ∀ a ∈ xs, cells (row a) = .ok (cellsOf a))
    (hdecode : ∀ a ∈ xs, decode (row a) (cellsOf a) = .ok a) :
    (do
      let cs ← (xs.map row).mapM cells
      ((xs.map row).zip cs).mapM fun (r, c) => decode r c) = Except.ok xs := by
  have hall : (xs.map row).mapM cells = .ok (xs.map cellsOf) := by
    induction xs with
    | nil => rfl
    | cons a xs ih =>
        have htail := ih (fun b hb => hcells b (List.mem_cons_of_mem a hb))
          fun b hb => hdecode b (List.mem_cons_of_mem a hb)
        rw [List.map_cons, List.mapM_cons, hcells a List.mem_cons_self, htail]
        rfl
  rw [hall, ok_bind]
  clear hall hcells
  induction xs with
  | nil => rfl
  | cons a xs ih =>
      have htail := ih fun b hb => hdecode b (List.mem_cons_of_mem a hb)
      rw [List.map_cons, List.map_cons, List.zip_cons_cons, List.mapM_cons, htail]
      simp only [hdecode a List.mem_cons_self]
      rfl

namespace MessageRow

/-! ## Reading a row -/

/-- The cells of the row of a message. -/
def cellsOf (m : Message) : Cells where
  priority := m.priority
  retryCount := m.retryCount
  requeued := m.requeued
  payload := m.payload

theorem flag?_ite (b : Bool) : flag? (.integer (if b then 1 else 0)) = some b := by
  cases b <;> rfl

theorem intWithin?_toInt (p : Int32) :
    (Cell.integer p.toInt).intWithin? (-2147483648) 2147483647 = some p.toInt := by
  have hlow := p.le_toInt
  have hhigh := p.toInt_lt
  simp only [Cell.intWithin?]
  rw [if_pos (by omega)]

theorem cells_ofMessage (m : Message) : (ofMessage m).cells = .ok (cellsOf m) := by
  simp only [cells, ofMessage, flag?_ite, cellsOf]
  cases m.priority with
  | none => rfl
  | some p => simp only [intWithin?_toInt, Int32.ofInt_toInt, ok_bind]

theorem status_ofColumn (s : Status) : Status.ofColumn s.text = .ok s := by
  cases s <;> rfl

theorem jobKey_ofMessage {m : Message} (hm : m.Fits) : (ofMessage m).jobKey = .ok m.job := by
  cases hjob : m.job with
  | none => simp only [jobKey, ofMessage, hjob, Option.map_none]
  | some k =>
      have hslot := hm.slot k hjob
      simp only [jobKey, ofMessage, hjob, Option.map_some, Instant.ofColumn_column hslot.1, hslot.2]
      rfl

theorem ofColumn?_exact {t : Option Instant} (h : ∀ a ∈ t, a.Exact) :
    Instant.ofColumn? (t.map Instant.column) = .ok t := by
  rw [Instant.ofColumn?_column fun a ha => (h a ha).1]
  cases t with
  | none => rfl
  | some a => rw [Option.map_some, (h a rfl).2]

theorem decode_ofMessage {m : Message} (hm : m.Fits) :
    (ofMessage m).decode (cellsOf m) = .ok m := by
  have hid := MessageId.ofText?_text m.id
  have henqueued : Instant.ofColumn m.enqueuedAt.column = .ok m.enqueuedAt := by
    rw [Instant.ofColumn_column hm.enqueuedAt.1, hm.enqueuedAt.2]
  have hretry : (cellsOf m).retryCount.toNat % UInt32.size = m.retryCount :=
    Nat.mod_eq_of_lt hm.retryCount
  have howner : (m.ownerToken.map (·.token)).map (⟨·⟩ : String → Owner) = m.ownerToken := by
    cases m.ownerToken <;> rfl
  rw [decode, jobKey_ofMessage hm]
  simp only [ofMessage, hid, Headers.ofColumn_column, status_ofColumn,
    ofColumn?_exact hm.visibleAfter, ofColumn?_exact hm.expiresAt,
    ofColumn?_exact hm.lastHeartbeat, henqueued, howner, ok_bind]
  rw [hretry]
  rfl

theorem toMessage_ofMessage {m : Message} (hm : m.Fits) : (ofMessage m).toMessage = .ok m := by
  rw [toMessage, cells_ofMessage, ok_bind, decode_ofMessage hm]

/-! ## Conditions -/

theorem id_iff {m : Message} {id : MessageId} : (ofMessage m).id = id.text ↔ m.id = id :=
  ⟨MessageId.text_injective, congrArg MessageId.text⟩

theorem id_ofMessage (m : Message) (id : MessageId) :
    decide ((ofMessage m).id = id.text) = decide (m.id = id) := by
  rw [decide_eq_decide, id_iff]

theorem waiting_text (s : Status) : decide (s.text = "waiting") = (s == .waiting) := by
  cases s <;> decide

theorem processing_text (s : Status) : decide (s.text = "processing") = (s == .processing) := by
  cases s <;> decide

section Times

variable {m : Message} (hm : m.Fits) {t : Instant} (ht : t.FourDigitYear)

include hm ht

theorem all_visibleAfter :
    (m.visibleAfter.map Instant.column).all (fun a => decide (a ≤ t.column)) =
      m.visibleAfter.all (fun a => decide (a ≤ t.micros)) := by
  cases h : m.visibleAfter with
  | none => rfl
  | some a => simp only [Option.map_some, Option.all_some, (hm.visibleAfter a h).column_le_iff ht]

theorem all_expiresAt :
    (m.expiresAt.map Instant.column).all (fun a => decide (t.column < a)) =
      m.expiresAt.all (fun a => decide (t.micros < a)) := by
  cases h : m.expiresAt with
  | none => rfl
  | some a => simp only [Option.map_some, Option.all_some, (hm.expiresAt a h).lt_column_iff ht]

theorem any_expiresAt :
    (m.expiresAt.map Instant.column).any (fun a => decide (a ≤ t.column)) =
      m.expiresAt.any (fun a => decide (a ≤ t.micros)) := by
  cases h : m.expiresAt with
  | none => rfl
  | some a => simp only [Option.map_some, Option.any_some, (hm.expiresAt a h).column_le_iff ht]

theorem all_lastHeartbeat :
    (m.lastHeartbeat.map Instant.column).all (fun a => decide (a < t.column)) =
      m.lastHeartbeat.all (fun a => decide (a < t.micros)) := by
  cases h : m.lastHeartbeat with
  | none => rfl
  | some a => simp only [Option.map_some, Option.all_some, (hm.lastHeartbeat a h).column_lt_iff ht]

theorem isClaimable_ofMessage (routes : List String) :
    (ofMessage m).isClaimable t.column routes = m.isClaimable t.micros routes := by
  change (decide (m.status.text = "waiting") && (m.visibleAfter.map Instant.column).all _
    && (m.expiresAt.map Instant.column).all _ && m.route.all _) = _
  rw [waiting_text, all_visibleAfter hm ht, all_expiresAt hm ht]
  rfl

theorem leaseExpired_ofMessage :
    (ofMessage m).leaseExpired t.column = m.leaseExpired t.micros := by
  change (decide (m.status.text = "processing") && (m.lastHeartbeat.map Instant.column).all _) = _
  rw [processing_text, all_lastHeartbeat hm ht]
  rfl

theorem isPurgeable_ofMessage :
    (ofMessage m).isPurgeable t.column = m.isPurgeable t.micros := by
  change (decide (m.status.text = "waiting") && (m.expiresAt.map Instant.column).any _) = _
  rw [waiting_text, any_expiresAt hm ht]
  rfl

end Times

theorem token_eq (a b : Option Owner) :
    decide (a.map (·.token) = b.map (·.token)) = (a == b) := by
  have hinj : Function.Injective (·.token : Owner → String) := fun x y h => by
    cases x
    cases y
    exact congrArg Owner.mk h
  rw [Bool.eq_iff_iff, decide_eq_true_iff, beq_iff_eq, (Option.map_injective hinj).eq_iff]

theorem lastHeartbeat_eq {a b : Option Instant} (ha : ∀ t ∈ a, t.Exact) (hb : ∀ t ∈ b, t.Exact) :
    decide (a.map Instant.column = b.map Instant.column) = (a == b) := by
  rw [Bool.eq_iff_iff, decide_eq_true_iff, beq_iff_eq]
  cases a with
  | none => cases b <;> simp
  | some x =>
      cases b with
      | none => simp
      | some y => simp only [Option.map_some, Option.some.injEq, (ha x rfl).column_inj (hb y rfl)]

theorem isOwnedBy_ofMessage (m : Message) (owner : Owner) :
    (ofMessage m).isOwnedBy owner = (m.status == .processing && m.isOwnedBy owner) := by
  change (decide (m.status.text = "processing") &&
    decide (m.ownerToken.map (·.token) = (some owner).map (·.token))) = _
  rw [processing_text, token_eq]
  rfl

theorem leaseUnchanged_ofMessage {m scanned : Message} (hm : m.Fits)
    (hscanned : ∀ t ∈ scanned.lastHeartbeat, t.Exact) :
    (ofMessage m).leaseUnchanged scanned = m.leaseUnchanged scanned := by
  change (decide (m.status.text = "processing")
    && decide (m.ownerToken.map (·.token) = scanned.ownerToken.map (·.token))
    && decide (m.lastHeartbeat.map Instant.column = scanned.lastHeartbeat.map Instant.column)) = _
  rw [processing_text, token_eq, lastHeartbeat_eq hm.lastHeartbeat hscanned]
  rfl

theorem rank_ofMessage (m : Message) : (ofMessage m).rank = .integer m.rank := by
  simp only [rank, ofMessage, Message.rank]
  cases m.priority <;> rfl

theorem claimedBefore_ofMessage (a b : Message) :
    (ofMessage a).claimedBefore (ofMessage b) = a.claimedBefore b := by
  rw [claimedBefore, rank_ofMessage, rank_ofMessage]
  change (decide (b.rank < a.rank) ||
    (!decide (a.rank < b.rank) && decide (a.sequence < b.sequence))) = _
  rw [Bool.eq_iff_iff, Message.claimedBefore]
  simp only [Bool.or_eq_true, Bool.and_eq_true, decide_eq_true_eq, Bool.not_eq_true',
    decide_eq_false_iff_not]
  omega

/-! ## The unique indexes -/

theorem slotKey?_ofMessage (m : Message) :
    (ofMessage m).slotKey? =
      if m.status = .error then none else m.job.map fun k => (k.name, k.slot.column) := by
  cases hjob : m.job with
  | none => simp [slotKey?, ofMessage, hjob]
  | some k => cases hs : m.status <;> simp [slotKey?, ofMessage, hjob, hs, Status.text]

theorem unconsumedKey?_ofMessage (m : Message) :
    (ofMessage m).unconsumedKey? =
      if m.status = .waiting ∨ m.status = .processing then m.job.map (·.name) else none := by
  cases hs : m.status <;> simp [unconsumedKey?, ofMessage, hs, Status.text]

theorem clashes_waiting {a b : Message} (ha : a.Fits) (hb : b.Fits)
    (hwaiting : b.status = .waiting) :
    (ofMessage a).clashes (ofMessage b) = (decide (a.id = b.id) || b.job.any a.blocks) := by
  rw [clashes, slotKey?_ofMessage, unconsumedKey?_ofMessage, slotKey?_ofMessage,
    unconsumedKey?_ofMessage, hwaiting, Bool.or_assoc]
  refine congrArg₂ _ (id_ofMessage a b.id) ?_
  cases hjob : b.job with
  | none => cases a.job <;> cases a.status <;> simp
  | some k =>
      cases hown : a.job with
      | none => simp [Message.blocks, hown]
      | some own =>
          have hslot := (ha.slot own hown).column_inj (hb.slot k hjob)
          rw [Bool.eq_iff_iff]
          cases hs : a.status <;> simp [Message.blocks, hown, hs, hslot] <;> exact fun h _ => h

theorem clashes_error (a : Message) {b : Message} (herror : b.status = .error) :
    (ofMessage a).clashes (ofMessage b) = decide (a.id = b.id) := by
  rw [clashes, slotKey?_ofMessage, unconsumedKey?_ofMessage, slotKey?_ofMessage,
    unconsumedKey?_ofMessage, herror, Bool.or_assoc]
  rw [show (decide ((ofMessage a).id = (ofMessage b).id)) = decide (a.id = b.id) from
    id_ofMessage a b.id]
  cases a.job <;> cases a.status <;> simp

end MessageRow

end WorkQueue
