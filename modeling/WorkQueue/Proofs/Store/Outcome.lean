import Mathlib
import WorkQueue.Proofs.Store.Change
import WorkQueue.Proofs.Store.Row
import WorkQueue.Proofs.Uuid
import WorkQueue.Store.Table

/-! # What a call does to a table

A table is taken as it is here: its rows may have been changed from outside, and what they hold may
not read back. `Outcome` says what a call makes of such a table, and with which reply.
-/

namespace WorkQueue

theorem bind_eq_ok {α β : Type} {x : Except StoreError α} {f : α → Except StoreError β} {b : β}
    (h : (x >>= f) = .ok b) : ∃ a, x = .ok a ∧ f a = .ok b := by
  cases x with
  | error e => cases h
  | ok a => exact ⟨a, rfl, h⟩

namespace MessageRow

/-- The row under a lease. -/
def leased (r : MessageRow) (token : Owner) (now : Instant) : MessageRow :=
  { r with
    status := "processing"
    ownerToken := some token.token
    lastHeartbeat := some now.column }

/-- The row with the columns that a move changes, as the message has them. -/
def moved (r : MessageRow) (m : Message) : MessageRow :=
  { r with
    status := m.status.text
    ownerToken := m.ownerToken.map (·.token)
    lastHeartbeat := m.lastHeartbeat.map Instant.column
    retryCount := .integer m.retryCount
    requeued := .integer (if m.requeued then 1 else 0)
    headers := m.headers.column }

/-- The row is held under a lease. -/
def isHeld (r : MessageRow) (id : MessageId) (token : Owner) : Bool :=
  r.id = id.text && r.isOwnedBy token

theorem isClaimable_waiting {r : MessageRow} {now : String} {routes : List String}
    (h : r.isClaimable now routes = true) : r.status = "waiting" := by
  simp only [isClaimable, Bool.and_eq_true, decide_eq_true_eq] at h
  exact h.1.1.1

end MessageRow

/-- A call that writes a message back into a row, if it finds the row so. -/
inductive Call.Writes : (c : Call) → c.Value → MessageRow → Message → Prop where
  | fail {token : Owner} {reason : String} {r : MessageRow} {m : Message}
      (held : r.isOwnedBy token = true) :
      Writes (.fail m.id token reason) () r (m.failed reason)
  | reset {scanned : Message} {r : MessageRow} (unchanged : r.leaseUnchanged scanned = true) :
      Writes (.reset scanned) true r scanned.reclaimed
  | poison {scanned : Message} {reason : String} {r : MessageRow}
      (unchanged : r.leaseUnchanged scanned = true) :
      Writes (.poison scanned reason) true r (scanned.poisoned reason)
  | requeue {r : MessageRow} {m m' : Message} (requeued : m.requeue? = some m')
      (failed : r.status = "error") : Writes (.requeue m.id) true r m'

namespace Table

/-- What a call with its reply makes of a table. -/
inductive Outcome (t : Table) : (c : Call) → c.Reply → Table → Prop where
  /-- The reply tells of no change. -/
  | kept {c : Call} {r : c.Reply} (changed : Entry.changed? ⟨c, r⟩ = none)
      (completed : Entry.completed? ⟨c, r⟩ = none) : Outcome t c r t
  | jobs {c : Call} {value : c.Value} {jobs : Option (List JobRow)} (job : c.isJobCall = true) :
      Outcome t c (.ok value) { t with jobs }
  | added {m : NewMessage} {id : MessageId} {stamp : Instant} {rows : List MessageRow}
      {row : MessageRow} (stored : t.messages = some rows)
      (made : row = .ofMessage (m.toMessage id (t.lastSeq + 1) stamp))
      (free : rows.any (·.clashes row) = false) :
      Outcome t (.insert m id stamp) (.ok id)
        { t with messages := some (rows ++ [row]), lastSeq := t.lastSeq + 1 }
  /-- The reply is an error if the row does not read back under its lease. -/
  | claimed {routes : List String} {token : Owner} {now : Instant} {rows : List MessageRow}
      {r : MessageRow} {cells : MessageRow.Cells} (stored : t.messages = some rows)
      (first : best? (rows.filter (·.isClaimable now.column routes)) = some r)
      (typed : (r.leased token now).cells = .ok cells) :
      Outcome t (.claim routes token now) (((r.leased token now).decode cells).map some)
        { t with messages := some (update rows (·.id = r.id) (·.leased token now)) }
  | renewed {id : MessageId} {token : Owner} {now : Instant} {rows : List MessageRow}
      (stored : t.messages = some rows) (held : rows.any (·.isHeld id token) = true) :
      Outcome t (.heartbeat id token now) (.ok ())
        { t with
          messages := some (update rows (·.isHeld id token) fun r =>
            { r with lastHeartbeat := some now.column }) }
  | completed {id : MessageId} {token : Owner} {rows : List MessageRow}
      (stored : t.messages = some rows) (held : rows.any (·.isHeld id token) = true) :
      Outcome t (.complete id token) (.ok ())
        { t with
          messages := some (update rows (·.isHeld id token) fun r =>
            { r with status := "complete", ownerToken := none, lastHeartbeat := none }) }
  | repeated {id : MessageId} {token : Owner} {rows : List MessageRow} {r : MessageRow}
      (stored : t.messages = some rows) (found : r ∈ rows) (same : r.id = id.text)
      (complete : r.status = "complete") : Outcome t (.complete id token) (.ok ()) t
  | written {c : Call} {value : c.Value} {rows : List MessageRow} {r : MessageRow} {m : Message}
      (stored : t.messages = some rows) (found : r ∈ rows) (same : r.id = m.id.text)
      (writes : c.Writes value r m) :
      Outcome t c (.ok value)
        { t with messages := some (update rows (·.id = r.id) fun _ => r.moved m) }
  | purged {now : Instant} {n : Nat} {rows : List MessageRow} (stored : t.messages = some rows) :
      Outcome t (.purge now) (.ok n)
        { t with messages := some (rows.filter (!·.isPurgeable now.column)) }

namespace Outcome

variable {t : Table} {c : Call}

theorem refused {e : StoreError} : t.Outcome c (.error e) t := by
  cases c <;> exact .kept rfl rfl

theorem guarded {x : Except StoreError (c.Reply × Table)}
    (h : ∀ a, x = .ok a → t.Outcome c a.1 a.2) :
    t.Outcome c (t.guarded x).1 (t.guarded x).2 := by
  cases x with
  | error e => exact refused
  | ok a => exact h a rfl

end Outcome

variable {t : Table}

theorem rows_ok {rows : List MessageRow} (h : t.rows = .ok rows) : t.messages = some rows := by
  unfold Table.rows at h
  split at h
  · rename_i hthere
    rw [hthere, Except.ok.inj h]
  · cases h

theorem load?_some {rows : List MessageRow} {id : MessageId} {m : Message}
    (h : load? rows id = .ok (some m)) :
    ∃ r ∈ rows, r.id = id.text ∧ r.toMessage = .ok m := by
  unfold load? at h
  split at h
  · cases h
  · rename_i r hfind
    cases hread : r.toMessage with
    | error e =>
        rw [hread] at h
        cases h
    | ok a =>
        rw [hread] at h
        obtain rfl := Option.some.inj (Except.ok.inj h)
        have hid := List.find?_some hfind
        exact ⟨r, List.mem_of_find?_eq_some hfind, of_decide_eq_true hid, hread⟩

end Table

theorem Status.text_ofColumn {raw : String} {s : Status} (h : ofColumn raw = .ok s) :
    raw = s.text := by
  unfold ofColumn at h
  split at h
  · rename_i found hfind
    obtain rfl := Except.ok.inj h
    unfold ofText? at hfind
    have htext := List.find?_some hfind
    exact (of_decide_eq_true htext).symm
  · cases h

namespace MessageRow

theorem decode_parts {r : MessageRow} {cells : Cells} {m : Message} (h : r.decode cells = .ok m) :
    MessageId.ofText? r.id = some m.id ∧ r.status = m.status.text := by
  unfold decode at h
  cases hid : MessageId.ofText? r.id with
  | none =>
      rw [hid] at h
      cases h
  | some id =>
      rw [hid] at h
      dsimp only [ok_bind] at h
      obtain ⟨job, -, h⟩ := bind_eq_ok h
      obtain ⟨headers, -, h⟩ := bind_eq_ok h
      obtain ⟨status, hstatus, h⟩ := bind_eq_ok h
      obtain ⟨visible, -, h⟩ := bind_eq_ok h
      obtain ⟨expiry, -, h⟩ := bind_eq_ok h
      obtain ⟨beat, -, h⟩ := bind_eq_ok h
      obtain ⟨stamp, -, h⟩ := bind_eq_ok h
      obtain rfl := Except.ok.inj h
      exact ⟨rfl, Status.text_ofColumn hstatus⟩

theorem toMessage_parts {r : MessageRow} {m : Message} (h : r.toMessage = .ok m) :
    MessageId.ofText? r.id = some m.id ∧ r.status = m.status.text := by
  obtain ⟨cells, -, h⟩ := bind_eq_ok h
  exact decode_parts h

end MessageRow

namespace Table

variable {t : Table}

theorem load?_id {rows : List MessageRow} {id : MessageId} {m : Message}
    (h : load? rows id = .ok (some m)) : m.id = id := by
  obtain ⟨r, -, hid, hread⟩ := load?_some h
  have hparsed := (MessageRow.toMessage_parts hread).1
  rw [hid, MessageId.ofText?_text] at hparsed
  exact (Option.some.inj hparsed).symm

theorem write_ok {rows : List MessageRow} {m : Message} {p : MessageRow → Bool} {a : Bool × Table}
    (h : t.write rows m p = .ok a) :
    a = (false, t) ∨ ∃ r ∈ rows, r.id = m.id.text ∧ p r = true ∧
      a = (true, { t with messages := some (update rows (·.id = r.id) fun _ => r.moved m) }) := by
  unfold write at h
  split at h
  · exact .inl (Except.ok.inj h).symm
  · rename_i r hfind
    have hr := List.find?_some hfind
    simp only [Bool.and_eq_true, decide_eq_true_eq] at hr
    extract_lets row at h
    split at h
    · cases h
    · exact .inr ⟨r, List.mem_of_find?_eq_some hfind, hr.1, hr.2, (Except.ok.inj h).symm⟩

theorem best?_mem {rows : List MessageRow} {r : MessageRow} (h : best? rows = some r) :
    r ∈ rows := by
  induction rows generalizing r with
  | nil => cases h
  | cons a rows ih =>
      simp only [best?] at h
      split at h
      · obtain rfl := Option.some.inj h
        exact List.mem_cons_self
      · rename_i b hb
        split at h <;> obtain rfl := Option.some.inj h
        · exact List.mem_cons_of_mem a (ih hb)
        · exact List.mem_cons_self

theorem best?_claimable {rows : List MessageRow} {r : MessageRow} {now : String}
    {routes : List String} (h : best? (rows.filter (·.isClaimable now routes)) = some r) :
    r ∈ rows ∧ r.status = "waiting" := by
  obtain ⟨hr, hclaimable⟩ := List.mem_filter.mp (best?_mem h)
  exact ⟨hr, MessageRow.isClaimable_waiting hclaimable⟩

/-! ## One call -/

theorem insert_outcome (m : NewMessage) (id : MessageId) (stamp : Instant) :
    t.Outcome (.insert m id stamp) (t.insert m id stamp).1 (t.insert m id stamp).2 := by
  apply Outcome.guarded (c := .insert m id stamp)
  intro a h
  obtain ⟨rows, hrows, h⟩ := bind_eq_ok h
  dsimp only at h
  split at h
  · cases h
  · rename_i hfree
    obtain rfl := Except.ok.inj h
    exact .added (rows_ok hrows) rfl (Bool.eq_false_iff.mpr hfree)

theorem claim_outcome (routes : List String) (token : Owner) (now : Instant) :
    t.Outcome (.claim routes token now) (t.claim routes token now).1
      (t.claim routes token now).2 := by
  apply Outcome.guarded (c := .claim routes token now)
  intro a h
  obtain ⟨rows, hrows, h⟩ := bind_eq_ok h
  split at h
  · obtain rfl := Except.ok.inj h
    exact .kept rfl rfl
  · rename_i r hfirst
    obtain ⟨cells, hcells, h⟩ := bind_eq_ok h
    obtain rfl := Except.ok.inj h
    exact .claimed (rows_ok hrows) hfirst hcells

theorem heartbeat_outcome (id : MessageId) (token : Owner) (now : Instant) :
    t.Outcome (.heartbeat id token now) (t.heartbeat id token now).1
      (t.heartbeat id token now).2 := by
  apply Outcome.guarded (c := .heartbeat id token now)
  intro a h
  obtain ⟨rows, hrows, h⟩ := bind_eq_ok h
  dsimp only at h
  split at h
  · rename_i hheld
    obtain rfl := Except.ok.inj h
    exact .renewed (rows_ok hrows) hheld
  · cases h

theorem complete_outcome (id : MessageId) (token : Owner) :
    t.Outcome (.complete id token) (t.complete id token).1 (t.complete id token).2 := by
  apply Outcome.guarded (c := .complete id token)
  intro a h
  obtain ⟨rows, hrows, h⟩ := bind_eq_ok h
  dsimp only at h
  split at h
  · rename_i hheld
    obtain rfl := Except.ok.inj h
    exact .completed (rows_ok hrows) hheld
  · obtain ⟨found, hfound, h⟩ := bind_eq_ok h
    split at h
    · cases h
    · split at h
      · rename_i m hcomplete
        obtain rfl := Except.ok.inj h
        obtain ⟨r, hr, hid, hread⟩ := load?_some hfound
        have hstatus := (MessageRow.toMessage_parts hread).2
        rw [hcomplete] at hstatus
        exact .repeated (rows_ok hrows) hr hid hstatus
      · cases h

theorem fail_outcome (id : MessageId) (token : Owner) (reason : String) :
    t.Outcome (.fail id token reason) (t.fail id token reason).1 (t.fail id token reason).2 := by
  apply Outcome.guarded (c := .fail id token reason)
  intro a h
  obtain ⟨rows, hrows, h⟩ := bind_eq_ok h
  obtain ⟨found, hfound, h⟩ := bind_eq_ok h
  split at h
  · cases h
  · rename_i m
    split at h
    · cases h
    · obtain ⟨w, hw, h⟩ := bind_eq_ok h
      obtain rfl := load?_id hfound
      rcases write_ok hw with rfl | ⟨r, hr, hid, hheld, rfl⟩
      · cases h
      · obtain rfl := Except.ok.inj h
        exact .written (rows_ok hrows) hr hid (.fail hheld)

theorem recover_cases (scanned m : Message) :
    (∃ e, t.recover scanned m = (.error e, t)) ∨ t.recover scanned m = (.ok false, t) ∨
      ∃ rows, t.messages = some rows ∧ ∃ r ∈ rows, r.id = m.id.text ∧
        r.leaseUnchanged scanned = true ∧ t.recover scanned m =
          (.ok true, { t with messages := some (update rows (·.id = r.id) fun _ => r.moved m) }) := by
  unfold recover
  cases hrows : t.rows with
  | error e => exact .inl ⟨e, rfl⟩
  | ok rows =>
      dsimp only [ok_bind]
      cases hwrite : t.write rows m (·.leaseUnchanged scanned) with
      | error e => exact .inl ⟨e, rfl⟩
      | ok a =>
          rcases write_ok hwrite with rfl | ⟨r, hr, hid, hunchanged, rfl⟩
          · exact .inr (.inl rfl)
          · exact .inr (.inr ⟨rows, rows_ok hrows, r, hr, hid, hunchanged, rfl⟩)

theorem reset_outcome (scanned : Message) :
    t.Outcome (.reset scanned) (t.recover scanned scanned.reclaimed).1
      (t.recover scanned scanned.reclaimed).2 := by
  rcases recover_cases (t := t) scanned scanned.reclaimed with
    ⟨e, h⟩ | h | ⟨rows, hrows, r, hr, hid, hunchanged, h⟩ <;> rw [h]
  · exact .refused
  · exact .kept rfl rfl
  · exact .written (c := .reset scanned) hrows hr hid (.reset hunchanged)

theorem poison_outcome (scanned : Message) (reason : String) :
    t.Outcome (.poison scanned reason) (t.recover scanned (scanned.poisoned reason)).1
      (t.recover scanned (scanned.poisoned reason)).2 := by
  rcases recover_cases (t := t) scanned (scanned.poisoned reason) with
    ⟨e, h⟩ | h | ⟨rows, hrows, r, hr, hid, hunchanged, h⟩ <;> rw [h]
  · exact .refused
  · exact .kept rfl rfl
  · exact .written (c := .poison scanned reason) hrows hr hid (.poison hunchanged)

theorem requeue_outcome (id : MessageId) :
    t.Outcome (.requeue id) (t.requeue id).1 (t.requeue id).2 := by
  apply Outcome.guarded (c := .requeue id)
  intro a h
  obtain ⟨rows, hrows, h⟩ := bind_eq_ok h
  obtain ⟨found, hfound, h⟩ := bind_eq_ok h
  split at h
  · obtain rfl := Except.ok.inj h
    exact .kept rfl rfl
  · rename_i m' hrequeue
    obtain ⟨m, rfl, hrequeued⟩ := Option.bind_eq_some_iff.mp hrequeue
    obtain rfl := load?_id hfound
    split at h
    · rename_i hw
      obtain rfl := Except.ok.inj h
      rcases write_ok hw with hw | ⟨r, hr, hid, hfailed, hw⟩
      · obtain ⟨rfl, rfl⟩ := Prod.mk.inj hw
        exact .kept rfl rfl
      · obtain ⟨rfl, rfl⟩ := Prod.mk.inj hw
        simp only [Bool.and_eq_true, decide_eq_true_eq] at hfailed
        exact .written (rows_ok hrows) hr hid (.requeue hrequeued hfailed.1)
    · obtain rfl := Except.ok.inj h
      exact .kept rfl rfl
    · cases h

theorem purge_outcome (now : Instant) :
    t.Outcome (.purge now) (t.purge now).1 (t.purge now).2 := by
  apply Outcome.guarded (c := .purge now)
  intro a h
  obtain ⟨rows, hrows, h⟩ := bind_eq_ok h
  obtain rfl := Except.ok.inj h
  exact .purged (rows_ok hrows)

theorem jobCall_outcome {c : Call} (h : c.isJobCall = true) :
    t.Outcome c (t.answer c).1 (t.answer c).2 := by
  cases c with
  | saveJob | removeJob | recordFired =>
      apply Outcome.guarded
      intro a h
      obtain ⟨rows, -, h⟩ := bind_eq_ok h
      obtain rfl := Except.ok.inj h
      exact .jobs rfl
  | loadJobs => exact .kept rfl rfl
  | _ => cases h

/-- Every call on any table has one of the outcomes. -/
theorem answer_outcome (t : Table) (c : Call) : t.Outcome c (t.answer c).1 (t.answer c).2 := by
  cases c with
  | insert m id stamp => exact insert_outcome m id stamp
  | claim routes token now => exact claim_outcome routes token now
  | heartbeat id token now => exact heartbeat_outcome id token now
  | complete id token => exact complete_outcome id token
  | fail id token reason => exact fail_outcome id token reason
  | reset scanned => exact reset_outcome scanned
  | poison scanned reason => exact poison_outcome scanned reason
  | requeue id => exact requeue_outcome id
  | purge now => exact purge_outcome now
  | scan | get | countForJob => exact .kept rfl rfl
  | saveJob | loadJobs | removeJob | recordFired => exact jobCall_outcome rfl

end Table

end WorkQueue
