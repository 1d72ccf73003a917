import Mathlib
import WorkQueue.Proofs.Lease.Redelivery
import WorkQueue.Proofs.Store.Occupancy

/-! # When a requeue is granted

A requeue decides by a flag and by the text of a header, and both can be told from the history of
the message. The flag is raised by the requeue that was granted. The header holds the reason that a
worker gave, or the reason of the queue if recovery gave the message up. A worker that gives the
reason of the queue cannot be told from recovery, and its message is refused a requeue that it should
have.
-/

namespace WorkQueue

/-! ## New messages -/

/-- What a producer can build: headers are set one by one. -/
inductive NewMessage.Built : NewMessage → Prop
  | new (payload : Bytes) : Built { payload }
  | withHeader {m : NewMessage} (built : Built m) (key : String) (value : Bytes) :
      Built (m.withHeader key value)
  | routed {m : NewMessage} (built : Built m) (route : String) : Built { m with route }
  | ranked {m : NewMessage} (built : Built m) (priority : Int32) : Built { m with priority }
  | delayed {m : NewMessage} (built : Built m) (t : Instant) : Built { m with visibleAfter := t }
  | expiring {m : NewMessage} (built : Built m) (t : Instant) : Built { m with expiresAt := t }
  | forJob {m : NewMessage} (built : Built m) (name : String) (slot : Instant) :
      Built (m.forJob name slot)

theorem NewMessage.Built.keysOnce {m : NewMessage} (h : m.Built) : m.headers.KeysOnce := by
  induction h with
  | new => exact Headers.keysOnce_empty
  | withHeader _ key value ih => exact ih.set key value
  | routed _ _ ih | ranked _ _ ih | delayed _ _ ih | expiring _ _ ih => exact ih
  | forJob _ name slot ih => exact (ih.setText jobNameHeader name).setText jobSlotHeader _

/-- Only messages that a producer can build were inserted. -/
def BuiltOnly (log : List Entry) : Prop :=
  ∀ e ∈ log, ∀ new id stamp, e.call = .insert new id stamp → new.Built

/-- The last call that changed a message, with its reply. Completions are left out, because their
replies do not tell; nothing changes a message that is complete. -/
def lastChange? (id : MessageId) (log : List Entry) : Option Entry :=
  log.reverse.find? fun e => e.changed? = some id

section Log

variable {id : MessageId} {log : List Entry} {e : Entry}

theorem lastChange?_append (h : e.changed? = some id) : lastChange? id (log ++ [e]) = some e := by
  rw [lastChange?, List.reverse_append]
  exact List.find?_cons_of_pos (decide_eq_true h)

theorem lastChange?_append_of_ne (h : e.changed? ≠ some id) :
    lastChange? id (log ++ [e]) = lastChange? id log := by
  rw [lastChange?, List.reverse_append]
  exact List.find?_cons_of_neg (by simpa using h)

end Log

namespace Message

variable {cut : Instant → Instant} {c : Call} {r : c.Reply} {m m' : Message} {log : List Entry}

theorem Change.keysOnce (h : m.Change cut c r m') (hm : m.headers.KeysOnce) :
    m'.headers.KeysOnce := by
  cases h with
  | claim | renew | complete => exact hm
  | fail => exact hm.setText errorHeader _
  | reset => exact hm.setText retryHeader _
  | poison => exact (hm.setText retryHeader _).setText errorHeader _
  | requeue hrequeue =>
      obtain ⟨-, -, -, rfl⟩ := requeue?_eq_some hrequeue
      exact (hm.erase errorHeader).setText retryHeader _

/-- How a message came to error, and the reason that it shows for it. -/
inductive Erred (log : List Entry) (m : Message) : Prop
  | failed {token : Owner} {reason : String}
      (last : lastChange? m.id log = some ⟨.fail m.id token reason, .ok ()⟩)
      (shown : m.errorReason? = some reason) : Erred log m
  | givenUp {scanned : Message}
      (last : lastChange? m.id log = some ⟨.poison scanned tooManyExpiries, .ok true⟩)
      (shown : m.errorReason? = some tooManyExpiries) : Erred log m

theorem Change.erred (h : m.Change cut c r m')
    (hreason : ∀ scanned reason, c = .poison scanned reason → reason = tooManyExpiries)
    (herror : m'.status = .error) : m'.Erred (log ++ [⟨c, r⟩]) := by
  cases h with
  | claim | complete | reset => cases herror
  | renew hheld => cases hheld.symm.trans herror
  | fail => exact .failed (lastChange?_append rfl) (Headers.getText?_setText_self _ _ _)
  | poison hsame =>
      obtain rfl := hreason _ _ rfl
      exact .givenUp (lastChange?_append (congrArg some hsame.symm)) (poisoned_reason _ _)
  | requeue hrequeue =>
      obtain ⟨-, -, -, rfl⟩ := requeue?_eq_some hrequeue
      cases herror

theorem Erred.append_of_ne {e : Entry} (h : m.Erred log) (hother : e.changed? ≠ some m.id) :
    m.Erred (log ++ [e]) := by
  cases h with
  | failed hlast hshown => exact .failed ((lastChange?_append_of_ne hother).trans hlast) hshown
  | givenUp hlast hshown => exact .givenUp ((lastChange?_append_of_ne hother).trans hlast) hshown

end Message

/-! ## A run -/

section Run

variable {allowed : MonitorConfig → Prop} {cut : Instant → Instant} {readings : List Instant}
  {log : List Entry} {s s' : Memory} {c : Call} {r : c.Reply}

theorem Effect.kept_or_changed (h : Effect cut s c r s') {m' : Message} (hm' : m' ∈ s'.messages) :
    m' ∈ s.messages ∧ Entry.changed? ⟨c, r⟩ ≠ some m'.id ∨
      (∃ m ∈ s.messages, m.Change cut c r m') ∨
      ∃ new id stamp, c = .insert new id stamp ∧
        m' = (new.cut cut).toMessage id (s.lastSequence + 1) (cut stamp) := by
  have hnone : none ≠ some m'.id := (Option.some_ne_none _).symm
  cases h with
  | kept hmessages _ hchanged => exact .inl ⟨hmessages ▸ hm', hchanged ▸ hnone⟩
  | scanned => exact .inl ⟨hm', hnone⟩
  | added =>
      rcases List.mem_append.mp hm' with hm' | hm'
      · exact .inl ⟨hm', hnone⟩
      · exact .inr (.inr ⟨_, _, _, rfl, List.mem_singleton.mp hm'⟩)
  | changed hfind hchange =>
      have hm := (Memory.find?_some hfind).1
      rcases (Memory.mem_put hm hchange.keeps.id).mp hm' with rfl | ⟨hm', hne⟩
      · exact .inr (.inl ⟨_, hm, hchange⟩)
      · exact .inl ⟨hm', fun hid => hne (hchange.eq_of_changed? hid)⟩
  | purged => exact .inl ⟨List.mem_of_mem_filter hm', hnone⟩

theorem Call.Lawful.reason_eq {scanned : Message} {reason : String}
    (h : (Call.poison scanned reason).Lawful allowed readings log) :
    reason = Message.tooManyExpiries := by
  cases h with
  | plain hsnapshot => cases hsnapshot
  | poison => rfl

theorem Trace.erred (h : Trace allowed cut readings log s) :
    ∀ m ∈ s.messages, m.status = .error → m.Erred log := by
  induction h with
  | start => exact fun m hm => by cases hm
  | tick _ _ ih => exact ih
  | call htrace hfresh hlawful heffect ih =>
      intro m' hm' herror
      rcases heffect.kept_or_changed hm' with ⟨hm, hother⟩ | ⟨m, -, hchange⟩ | ⟨_, _, _, -, rfl⟩
      · exact (ih m' hm herror).append_of_ne hother
      · exact hchange.erred (fun scanned reason hc => (hc ▸ hlawful).reason_eq) herror
      · cases herror

theorem Trace.requeue_room (h : Trace allowed cut readings log s) {m m' : Message}
    (hm : m ∈ s.messages) (hrequeue : m.requeue? = some m') : m.retryCount + 1 < UInt32.size := by
  obtain ⟨herror, hfirst, hreason, -⟩ := Message.requeue?_eq_some hrequeue
  obtain ⟨hbound, -, hcount⟩ := (h.counted hm).error herror
  rw [hcount hreason, hfirst] at hbound
  exact Nat.lt_of_le_pred (by decide) hbound

theorem Trace.keysOnce (h : Trace allowed cut readings log s) (hbuilt : BuiltOnly log) :
    ∀ m ∈ s.messages, m.headers.KeysOnce := by
  induction h with
  | start => exact fun m hm => by cases hm
  | tick _ _ ih => exact ih hbuilt
  | call htrace hfresh hlawful heffect ih =>
      intro m' hm'
      have hold := ih fun e he => hbuilt e (List.mem_append_left _ he)
      rcases heffect.origin hm' with hm | ⟨m, hm, hchange⟩ | ⟨new, id, stamp, rfl, rfl⟩
      · exact hold m' hm
      · exact hchange.keysOnce (hold m hm)
      · exact (hbuilt _ (List.mem_append_right _ (List.mem_singleton_self _)) new id stamp
          rfl).keysOnce

end Run

/-! ## Requeues -/

namespace Message

/-- A message that may go back to waiting: it is in error, was never requeued, was last changed by a
worker that failed it with a reason, and no other message blocks its job. -/
structure Requeueable (log : List Entry) (s : Memory) (m : Message) (reason : String) : Prop where
  stored : m ∈ s.messages
  error : m.status = .error
  first : requeues m.id log = 0
  failed : ∃ token, lastChange? m.id log = some ⟨.fail m.id token reason, .ok ()⟩
  free : ¬ ∃ key ∈ m.job, ∃ a ∈ s.messages, a.id ≠ m.id ∧ a.Occupies key

/-- The message is waiting again, with one more retry and without a reason. -/
structure Reopened (m m' : Message) : Prop extends m.Keeps m' where
  waiting : m'.status = .waiting
  reason : m'.errorReason? = none
  retryCount : m'.retryCount = m.retryCount + 1
  requeued : m'.requeued = true

variable {log : List Entry} {s : Memory} {m : Message}

theorem requeue?_of_open (herror : m.status = .error) (hfirst : m.requeued = false)
    (hreason : m.errorReason? ≠ some tooManyExpiries) : m.requeue? = some m.requeuedOf := by
  rw [requeue?, if_neg (by simp [herror, hfirst, hreason])]
  rfl

theorem requeuedOf_keeps (m : Message) : m.Keeps m.requeuedOf := by
  refine keeps_of_headers ?_
  rw [Headers.without_setText (by decide)]
  exact Headers.without_erase (by decide) _

theorem requeuedOf_reopened (hkeys : m.headers.KeysOnce) (hroom : m.retryCount + 1 < UInt32.size) :
    m.Reopened m.requeuedOf where
  toKeeps := m.requeuedOf_keeps
  waiting := rfl
  reason := by
    have hne : errorHeader ≠ retryHeader := by decide
    have hgone : (m.headers.erase errorHeader).getText? errorHeader = none := by
      rw [Headers.getText?, hkeys.get?_erase, Option.bind_none]
    exact (Headers.getText?_setText_of_ne _ hne _).trans hgone
  retryCount := nextRetry_eq hroom
  requeued := rfl

theorem Erred.reason_eq (h : m.Erred log) {token : Owner} {reason : String}
    (hlast : lastChange? m.id log = some ⟨.fail m.id token reason, .ok ()⟩) :
    m.errorReason? = some reason := by
  cases h with
  | failed hlast' hshown =>
      obtain ⟨hcall, -⟩ := Entry.mk.inj (Option.some.inj (hlast'.symm.trans hlast))
      rw [hshown, (Call.fail.inj hcall).2.2]
  | givenUp hlast' =>
      obtain ⟨hcall, -⟩ := Entry.mk.inj (Option.some.inj (hlast'.symm.trans hlast))
      cases hcall

end Message

namespace Memory

variable {s : Memory} {m : Message}

theorem isBlocked_others_iff {id : MessageId} {job : Option JobSlotKey} :
    isBlocked (s.messages.filter (·.id ≠ id)) job = true ↔
      ∃ key ∈ job, ∃ a ∈ s.messages, a.id ≠ id ∧ a.Occupies key := by
  cases job with
  | none => simp [isBlocked]
  | some key => simp [isBlocked_iff_occupied, and_assoc]

theorem requeue_granted (hd : s.Distinct) (hm : m ∈ s.messages)
    (hrequeue : m.requeue? = some m.requeuedOf)
    (hfree : ¬ ∃ key ∈ m.job, ∃ a ∈ s.messages, a.id ≠ m.id ∧ a.Occupies key) :
    s.requeue m.id = (true, s.put m.requeuedOf) := by
  have hopen : ¬ isBlocked (s.messages.filter (·.id ≠ m.id)) m.requeuedOf.job = true :=
    fun hblocked => hfree (isBlocked_others_iff.mp hblocked)
  simp only [requeue, hd.find?_of_mem hm, Option.bind_some, hrequeue]
  rw [if_neg hopen]
  rfl

theorem requeue_cases (s : Memory) (id : MessageId) :
    s.requeue id = (false, s) ∨ ∃ m ∈ s.messages, m.id = id ∧ m.requeue? = some m.requeuedOf ∧
      ¬ ∃ key ∈ m.job, ∃ a ∈ s.messages, a.id ≠ m.id ∧ a.Occupies key := by
  simp only [requeue]
  split
  · exact .inl rfl
  · rename_i m' hfound
    obtain ⟨m, hfind, hrequeue⟩ := Option.bind_eq_some_iff.mp hfound
    obtain ⟨hm, rfl⟩ := find?_some hfind
    obtain ⟨-, -, -, rfl⟩ := Message.requeue?_eq_some hrequeue
    split
    · exact .inl rfl
    · rename_i hfree
      exact .inr ⟨m, hm, rfl, hrequeue, fun hblocked => hfree (isBlocked_others_iff.mpr hblocked)⟩

end Memory

/-- What a flag and a header tell is the history of the message, but for one reason. -/
theorem Trace.requeueable_iff {allowed : MonitorConfig → Prop} {cut : Instant → Instant}
    {readings : List Instant} {log : List Entry} {s : Memory}
    (h : Trace allowed cut readings log s) {m : Message} (hm : m ∈ s.messages) :
    (∃ reason, reason ≠ Message.tooManyExpiries ∧ m.Requeueable log s reason) ↔
      m.requeue? = some m.requeuedOf ∧
        ¬ ∃ key ∈ m.job, ∃ a ∈ s.messages, a.id ≠ m.id ∧ a.Occupies key := by
  have hflag := (h.counted hm).requeues
  constructor
  · rintro ⟨reason, hreason, -, herror, hfirst, ⟨token, hlast⟩, hfree⟩
    refine ⟨Message.requeue?_of_open herror ?_ ?_, hfree⟩
    · exact Bool.toNat_eq_zero.mp (hflag.symm.trans hfirst)
    · rw [(h.erred m hm herror).reason_eq hlast]
      exact fun hsame => hreason (Option.some.inj hsame)
  · rintro ⟨hrequeue, hfree⟩
    obtain ⟨herror, hfirst, hreason, -⟩ := Message.requeue?_eq_some hrequeue
    rw [hfirst] at hflag
    cases h.erred m hm herror with
    | @failed token reason hlast hshown =>
        refine ⟨reason, ?_, hm, herror, hflag, ⟨token, hlast⟩, hfree⟩
        rintro rfl
        exact hreason hshown
    | givenUp _ hshown => exact absurd hshown hreason

namespace World

/-- A producer set the header of the queue itself. The message was claimed, and failed with a
reason. -/
def failedOnce (reason : String) : World :=
  let new := NewMessage.withHeader { payload := [1] } Message.errorHeader
    (Bytes.ofText Message.tooManyExpiries)
  let held := (new.toMessage ⟨.ofNat 1⟩ 1 .epoch).beginLease ⟨"a"⟩ .epoch
  { store := .memory ⟨[held.failed reason], [], 1⟩
    clock := .epoch
    past := []
    tasks := [.done (), .done (), .done ()]
    log := [⟨.insert new ⟨.ofNat 1⟩ .epoch, .ok held.id⟩,
      ⟨.claim [] ⟨"a"⟩ .epoch, .ok (some held)⟩, ⟨.fail held.id ⟨"a"⟩ reason, .ok ()⟩] }

variable {allowed : MonitorConfig → Prop} {w : World} {s : Memory}

theorem failedOnce_reachable (allowed : MonitorConfig → Prop) (reason : String) :
    (failedOnce reason).Reachable allowed := by
  let new := NewMessage.withHeader { payload := [1] } Message.errorHeader
    (Bytes.ofText Message.tooManyExpiries)
  let insert : Call := .insert new ⟨.ofNat 1⟩ .epoch
  let claim : Call := .claim [] ⟨"a"⟩ .epoch
  let waiting := new.toMessage ⟨.ofNat 1⟩ 1 .epoch
  let held := waiting.beginLease ⟨"a"⟩ .epoch
  let inserted : Entry := ⟨insert, .ok held.id⟩
  let claimed : Entry := ⟨claim, .ok (some held)⟩
  have hstart : Reachable allowed _ := .memory .epoch
  have hinsert := hstart.step (@Step.begin _ _ (.call insert) ⟨rfl, rfl⟩)
  have hinserted := hinsert.step (@Step.call _ _ [] [] insert _ rfl (by decide))
  change Reachable _ ⟨.memory ⟨[waiting], [], 1⟩, .epoch, [], [.done ()], [inserted]⟩ at hinserted
  have hclaim := hinserted.step (@Step.begin _ _ (.claim ⟨"a"⟩ []) trivial)
  have hclaimed := hclaim.step (@Step.call _ _ [] [.done ()] claim _ rfl (by decide))
  change Reachable _ ⟨.memory ⟨[held], [], 1⟩, .epoch, [], [.done (), .done ()],
    [inserted, claimed]⟩ at hclaimed
  have hfail := hclaimed.step (@Step.begin _ _ (.fail ⟨held.id, ⟨"a"⟩⟩ reason) trivial)
  have hfailed := hfail.step
    (@Step.call _ _ [] [.done (), .done ()] (.fail held.id ⟨"a"⟩ reason) _ rfl ⟨nofun, nofun⟩)
  exact hfailed

theorem failedOnce_built (reason : String) : BuiltOnly (failedOnce reason).log := by
  intro e he new id stamp hinsert
  simp only [failedOnce, List.mem_cons, List.not_mem_nil, or_false] at he
  rcases he with rfl | rfl | rfl
  · obtain ⟨rfl, -⟩ := Call.insert.inj hinsert
    exact .withHeader (.new [1]) _ _
  · cases hinsert
  · cases hinsert

theorem failedOnce_requeueable (reason : String) : ∃ s, (failedOnce reason).store = .memory s ∧
    ∃ m : Message, m.id = ⟨.ofNat 1⟩ ∧ m.Requeueable (failedOnce reason).log s reason := by
  refine ⟨_, rfl, _, rfl, List.mem_singleton_self _, rfl, rfl, ⟨⟨"a"⟩, rfl⟩, ?_⟩
  rintro ⟨key, hkey, -⟩
  cases hkey

/-- A requeue is granted exactly to a message that is in error, was never requeued, was failed by a
worker with another reason than that of the queue, and whose job no other message blocks. It is then
waiting with one more retry and without a reason, and nothing else changes; a requeue that is refused
changes nothing. -/
theorem requeue_exact (hw : w.Reachable allowed) (hstore : w.store = .memory s)
    (hbuilt : BuiltOnly w.log) (id : MessageId) :
    let reply := (w.store.answer (.requeue id)).1
    let after := (w.store.answer (.requeue id)).2
    (reply = .ok true ↔ ∃ (m : Message) (reason : String), m.id = id ∧
      reason ≠ Message.tooManyExpiries ∧ m.Requeueable w.log s reason) ∧
    (reply = .ok true → ∃ m ∈ s.messages, m.id = id ∧ ∃ m', m.Reopened m' ∧
      after = .memory (s.put m')) ∧
    (reply ≠ .ok true → reply = .ok false ∧ after = .memory s) := by
  have hdated : w.Dated := fun e _ t ht => by cases hstore.symm.trans ht
  obtain ⟨⟨cut, s', hholds, -, htrace⟩, -⟩ := hw.trace hdated
  rw [hstore] at hholds ⊢
  cases hholds
  have hd := htrace.sound.distinct
  have hgranted {m : Message} (hm : m ∈ s.messages) (hrequeue : m.requeue? = some m.requeuedOf)
      (hfree : ¬ ∃ key ∈ m.job, ∃ a ∈ s.messages, a.id ≠ m.id ∧ a.Occupies key) :
      (Backend.memory s).answer (.requeue m.id) = (.ok true, .memory (s.put m.requeuedOf)) := by
    simp only [Backend.answer, Memory.answer, Memory.requeue_granted hd hm hrequeue hfree]
  rcases s.requeue_cases id with hrefused | ⟨m, hm, rfl, hrequeue, hfree⟩
  · have hanswer : (Backend.memory s).answer (.requeue id) = (.ok false, .memory s) := by
      simp only [Backend.answer, Memory.answer, hrefused]
    rw [hanswer]
    refine ⟨⟨?_, ?_⟩, ?_, fun _ => ⟨rfl, rfl⟩⟩
    · rintro ⟨⟩
    · rintro ⟨m, reason, rfl, hreason, hopen⟩
      obtain ⟨hrequeue, hfree⟩ :=
        (htrace.requeueable_iff hopen.stored).mp ⟨reason, hreason, hopen⟩
      cases hanswer.symm.trans (hgranted hopen.stored hrequeue hfree)
    · rintro ⟨⟩
  · rw [hgranted hm hrequeue hfree]
    obtain ⟨reason, hreason, hopen⟩ := (htrace.requeueable_iff hm).mpr ⟨hrequeue, hfree⟩
    refine ⟨⟨fun _ => ⟨m, reason, rfl, hreason, hopen⟩, fun _ => rfl⟩, fun _ => ?_, fun h => ?_⟩
    · exact ⟨m, hm, rfl, _, Message.requeuedOf_reopened (htrace.keysOnce hbuilt m hm)
        (htrace.requeue_room hm hrequeue), rfl⟩
    · exact absurd rfl h

/-- A reason that the producer forged does not count. -/
theorem requeue_exact_forged :
    let answer := (failedOnce "boom").store.answer (.requeue ⟨.ofNat 1⟩)
    answer.1 = .ok true ∧ ∃ m', answer.2 = .memory ⟨[m'], [], 1⟩ ∧ m'.status = .waiting ∧
      m'.errorReason? = none ∧ m'.retryCount = 1 := by
  intro answer
  obtain ⟨s, hstore, m, hid, hopen⟩ := failedOnce_requeueable "boom"
  obtain ⟨hgranted, hafter, -⟩ := requeue_exact (failedOnce_reachable (fun _ => True) "boom") hstore
    (failedOnce_built "boom") ⟨.ofNat 1⟩
  have htrue := hgranted.mpr ⟨m, "boom", hid, by decide, hopen⟩
  obtain ⟨old, hold, -, m', hreopened, hput⟩ := hafter htrue
  obtain rfl := Backend.memory.inj hstore
  obtain rfl := List.mem_singleton.mp hold
  refine ⟨htrue, m', hput.trans ?_, hreopened.waiting, hreopened.reason, hreopened.retryCount⟩
  simp [Memory.put, Memory.modify, hreopened.id]

/-- A worker that fails a message with the reason of the queue spends its requeue. -/
theorem not_forall_requeueable_granted :
    ¬ ∀ (w : World) (s : Memory), w.Reachable (fun _ => True) → w.store = .memory s →
      BuiltOnly w.log → ∀ (m : Message) (reason : String), m.Requeueable w.log s reason →
        (w.store.answer (.requeue m.id)).1 = .ok true := by
  intro hall
  obtain ⟨s, hstore, m, hid, hopen⟩ := failedOnce_requeueable Message.tooManyExpiries
  have hgranted := hall _ s (failedOnce_reachable _ _) hstore (failedOnce_built _) m _ hopen
  rw [hid] at hgranted
  revert hgranted
  decide +kernel

end World

end WorkQueue
