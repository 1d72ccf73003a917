import Mathlib
import WorkQueue.Proofs.Store.Change
import WorkQueue.Proofs.Store.Memory

/-! # What a call does to the messages

A call leaves the messages alone, adds one, changes one or purges some, and `Effect` says which it
was. The store in memory keeps the times of its calls as they are; a store that passes them through
a function first is the same store otherwise.
-/

namespace WorkQueue

/-- The key with its slot passed through a function. -/
def JobSlotKey.cut (cut : Instant → Instant) (k : JobSlotKey) : JobSlotKey :=
  { k with slot := cut k.slot }

/-- The message with its times passed through a function. -/
def NewMessage.cut (cut : Instant → Instant) (m : NewMessage) : NewMessage :=
  { m with
    visibleAfter := m.visibleAfter.map cut
    expiresAt := m.expiresAt.map cut
    job := m.job.map (·.cut cut) }

theorem NewMessage.cut_id (m : NewMessage) : m.cut id = m := by
  cases m with
  | mk payload headers route priority visibleAfter expiresAt job =>
      cases job <;>
        simp only [cut, JobSlotKey.cut, Option.map_id_fun, id_eq, Option.map_none, Option.map_some]

/-- The record with its times passed through a function. -/
def JobRecord.cut (cut : Instant → Instant) (j : JobRecord) : JobRecord :=
  { j with lastFiredSlot := j.lastFiredSlot.map cut, armedAt := cut j.armedAt }

theorem JobRecord.cut_id (j : JobRecord) : j.cut id = j := by
  simp only [cut, Option.map_id_fun, id_eq]

namespace Memory

/-- Answer a call whose times are passed through a function first. -/
def answerThrough (cut : Instant → Instant) (s : Memory) : (c : Call) → c.Reply × Memory
  | .insert m id stamp => s.answer (.insert (m.cut cut) id (cut stamp))
  | .claim routes token now => s.answer (.claim routes token (cut now))
  | .heartbeat id token now => s.answer (.heartbeat id token (cut now))
  | .scan threshold => s.answer (.scan (cut threshold))
  | .purge now => s.answer (.purge (cut now))
  | .saveJob job => s.answer (.saveJob (job.cut cut))
  | .recordFired name slot => s.answer (.recordFired name (cut slot))
  | c => s.answer c

theorem answerThrough_id (s : Memory) (c : Call) : s.answerThrough id c = s.answer c := by
  cases c with
  | insert m new stamp =>
      change s.insert (m.cut id) new stamp = s.insert m new stamp
      rw [NewMessage.cut_id]
  | saveJob job =>
      change (_, { s with jobs := putJob (job.cut id) s.jobs }) =
        ((_, { s with jobs := putJob job s.jobs }) : Except StoreError Unit × Memory)
      rw [JobRecord.cut_id]
  | _ => rfl

end Memory

/-- What a call with its reply makes of the messages of a store. -/
inductive Effect (cut : Instant → Instant) (s : Memory) : (c : Call) → c.Reply → Memory → Prop
  | kept {c : Call} {r : c.Reply} {s' : Memory} (messages : s'.messages = s.messages)
      (last : s'.lastSequence = s.lastSequence) (changed : Entry.changed? ⟨c, r⟩ = none)
      (found : Entry.found ⟨c, r⟩ = [])
      (completed : ∀ id ∈ Entry.completed? ⟨c, r⟩,
        ∃ m ∈ s.messages, m.id = id ∧ m.status = .complete := by intro id h; cases h) :
      Effect cut s c r s'
  | scanned {threshold : Instant} :
      Effect cut s (.scan threshold) (.ok (s.scan (cut threshold))) s
  | added {m : NewMessage} {id : MessageId} {stamp : Instant}
      (free : Memory.isBlocked s.messages (m.cut cut).job = false) :
      Effect cut s (.insert m id stamp) (.ok id) (s.add (m.cut cut) id (cut stamp))
  | changed {c : Call} {r : c.Reply} {m m' : Message} (found : s.find? m.id = some m)
      (change : m.Change cut c r m')
      (free : m.status = .error →
        Memory.isBlocked (s.messages.filter (·.id ≠ m.id)) m'.job = false) :
      Effect cut s c r (s.put m')
  | purged {now : Instant} {n : Nat} :
      Effect cut s (.purge now) (.ok n)
        { s with messages := s.messages.filter (!·.isPurgeable (cut now)) }

namespace Effect

variable {cut : Instant → Instant} {s s' : Memory} {c : Call} {r : c.Reply}

/-- A message after a call was there before, or was changed by the call, or was inserted by it. -/
theorem origin (h : Effect cut s c r s') {m' : Message} (hm' : m' ∈ s'.messages) :
    m' ∈ s.messages ∨ (∃ m ∈ s.messages, m.Change cut c r m') ∨
      ∃ new id stamp, c = .insert new id stamp ∧
        m' = (new.cut cut).toMessage id (s.lastSequence + 1) (cut stamp) := by
  cases h with
  | kept hmessages => exact .inl (hmessages ▸ hm')
  | scanned => exact .inl hm'
  | added =>
      rcases List.mem_append.mp hm' with hm' | hm'
      · exact .inl hm'
      · exact .inr (.inr ⟨_, _, _, rfl, List.mem_singleton.mp hm'⟩)
  | changed hfind hchange =>
      have hm := (Memory.find?_some hfind).1
      rcases (Memory.mem_put hm hchange.keeps.id).mp hm' with rfl | ⟨hm', -⟩
      · exact .inr (.inl ⟨_, hm, hchange⟩)
      · exact .inl hm'
  | purged => exact .inl (List.mem_of_mem_filter hm')

theorem stays_or_changed (h : Effect cut s c r s') (hd : s.Distinct) {m : Message}
    (hm : m ∈ s.messages) (hstatus : m.status ≠ .waiting) :
    m ∈ s'.messages ∧ Entry.changed? ⟨c, r⟩ ≠ some m.id ∨
      ∃ m', m.Change cut c r m' ∧ s' = s.put m' := by
  cases h with
  | kept hmessages _ hchanged =>
      exact .inl ⟨hmessages ▸ hm, hchanged ▸ (Option.some_ne_none _).symm⟩
  | scanned => exact .inl ⟨hm, (Option.some_ne_none _).symm⟩
  | added => exact .inl ⟨List.mem_append_left _ hm, (Option.some_ne_none _).symm⟩
  | @changed c r a a' hfind hchange =>
      have ha := (Memory.find?_some hfind).1
      by_cases hsame : m.id = a.id
      · obtain rfl := hd.eq_of_id hm ha hsame
        exact .inr ⟨a', hchange, rfl⟩
      · exact .inl ⟨(Memory.mem_put ha hchange.keeps.id).mpr (.inr ⟨hm, hsame⟩),
          fun hchanged => hsame (hchange.eq_of_changed? hchanged)⟩
  | @purged now =>
      have hkept : ¬m.isPurgeable (cut now) = true := fun hpurge =>
        hstatus (Message.isPurgeable_waiting hpurge)
      exact .inl ⟨List.mem_filter.mpr ⟨hm, by simpa using hkept⟩, (Option.some_ne_none _).symm⟩

theorem handed_waiting (h : Effect cut s c r s') {m : Message}
    (hm : Entry.handed? ⟨c, r⟩ = some m) :
    ∃ old ∈ s.messages, old.id = m.id ∧ old.status = .waiting := by
  cases h with
  | kept _ _ hchanged => cases hchanged.symm.trans (Entry.changed?_of_handed? hm)
  | scanned | added | purged => cases hm
  | @changed c r old m' hfind hchange =>
      cases hchange with
      | claim hclaimable =>
          obtain rfl := Option.some.inj hm
          exact ⟨old, (Memory.find?_some hfind).1, rfl, Message.isClaimable_waiting hclaimable⟩
      | _ => cases hm

theorem distinct (h : Effect cut s c r s') (hd : s.Distinct)
    (hfresh : ∀ id ∈ c.insertedId?, ∀ m ∈ s.messages, m.id ≠ id) : s'.Distinct := by
  cases h with
  | kept hmessages =>
      rw [Memory.Distinct, hmessages]
      exact hd
  | scanned => exact hd
  | added => exact hd.append (hfresh _ rfl)
  | changed hfind hchange => exact hd.put (Memory.find?_some hfind).1 hchange.keeps.id
  | purged => exact hd.sublist (List.filter_sublist.map _)

end Effect

namespace Memory

variable {cut : Instant → Instant} {s : Memory}

theorem insert_effect (m : NewMessage) (id : MessageId) (stamp : Instant) :
    Effect cut s (.insert m id stamp) (s.insert (m.cut cut) id (cut stamp)).1
      (s.insert (m.cut cut) id (cut stamp)).2 := by
  unfold insert
  split
  · rename_i key hkey
    split
    · exact .kept rfl rfl rfl rfl
    · rename_i hfree
      rw [← hkey] at hfree
      exact .added (by simpa using hfree)
  · rename_i hkey
    exact .added (by rw [hkey]; rfl)

theorem claim_effect (hd : s.Distinct) (routes : List String) (token : Owner) (now : Instant) :
    Effect cut s (.claim routes token now) (s.claim routes token (cut now)).1
      (s.claim routes token (cut now)).2 := by
  unfold claim
  split
  · exact .kept rfl rfl rfl rfl
  · rename_i m hbest
    obtain ⟨hm, hclaimable⟩ := List.mem_filter.mp (best?_mem hbest)
    rw [hd.modify_eq_put hm rfl]
    refine .changed (hd.find?_of_mem hm) (.claim hclaimable) fun herror => ?_
    cases herror.symm.trans (Message.isClaimable_waiting hclaimable)

theorem heartbeat_effect (hd : s.Distinct) (id : MessageId) (token : Owner) (now : Instant) :
    Effect cut s (.heartbeat id token now) (s.heartbeat id token (cut now)).1
      (s.heartbeat id token (cut now)).2 := by
  unfold heartbeat
  split
  · exact .kept rfl rfl rfl rfl
  · rename_i m hfind
    obtain ⟨hm, rfl⟩ := find?_some hfind
    split
    · exact .kept rfl rfl rfl rfl
    · rename_i hheld
      rw [not_not] at hheld
      split
      · exact .kept rfl rfl rfl rfl
      · rename_i howned
        rw [Bool.not_eq_true', Bool.not_eq_false, Message.isOwnedBy_iff] at howned
        rw [hd.modify_eq_put hm rfl]
        exact .changed hfind (.renew hheld howned) fun herror => by
          cases herror.symm.trans hheld

theorem complete_effect (hd : s.Distinct) (id : MessageId) (token : Owner) :
    Effect cut s (.complete id token) (s.complete id token).1
      (s.complete id token).2 := by
  unfold complete
  split
  · exact .kept rfl rfl rfl rfl
  · rename_i m hfind
    obtain ⟨hm, rfl⟩ := find?_some hfind
    split
    · rename_i hdone
      refine .kept rfl rfl rfl rfl fun id hid => ?_
      exact ⟨m, hm, Option.some.inj hid, Status.isTerminal_iff.mp hdone⟩
    · split
      · rename_i hheld
        simp only [Bool.and_eq_true, decide_eq_true_eq, Message.isOwnedBy_iff] at hheld
        rw [hd.modify_eq_put hm rfl]
        exact .changed hfind (.complete hheld.1 hheld.2) fun herror => by
          cases herror.symm.trans hheld.1
      · exact .kept rfl rfl rfl rfl

theorem fail_effect (hd : s.Distinct) (id : MessageId) (token : Owner) (reason : String) :
    Effect cut s (.fail id token reason) (s.fail id token reason).1
      (s.fail id token reason).2 := by
  unfold fail
  split
  · exact .kept rfl rfl rfl rfl
  · rename_i m hfind
    obtain ⟨hm, rfl⟩ := find?_some hfind
    split
    · rename_i hheld
      simp only [Bool.and_eq_true, Status.canMoveTo_error, Message.isOwnedBy_iff] at hheld
      rw [hd.modify_eq_put hm rfl]
      exact .changed hfind (.fail hheld.1 hheld.2) fun herror => by
        cases herror.symm.trans hheld.1
    · exact .kept rfl rfl rfl rfl

theorem recover_cases (hd : s.Distinct) (scanned : Message) {f : Message → Message}
    (hf : ∀ m, (f m).id = m.id) :
    s.recover scanned f = (false, s) ∨ ∃ m, s.find? m.id = some m ∧ m.id = scanned.id ∧
      m.leaseUnchanged scanned = true ∧ s.recover scanned f = (true, s.put (f m)) := by
  simp only [recover]
  split
  · exact .inl rfl
  · rename_i m hfind
    obtain ⟨hm, hid⟩ := find?_some hfind
    split
    · rename_i hunchanged
      refine .inr ⟨m, hid ▸ hfind, hid, hunchanged, ?_⟩
      rw [← hid, hd.modify_eq_put hm (hf m)]
    · exact .inl rfl

theorem reset_effect (hd : s.Distinct) (scanned : Message) :
    Effect cut s (.reset scanned) (.ok (s.recover scanned (·.reclaimed)).1)
      (s.recover scanned (·.reclaimed)).2 := by
  rcases recover_cases hd scanned (f := (·.reclaimed)) fun _ => rfl with
    h | ⟨m, hfind, hid, hunchanged, h⟩
  · rw [h]
    exact .kept rfl rfl rfl rfl
  · rw [h]
    exact .changed hfind (.reset hid hunchanged) fun herror => by
      cases herror.symm.trans (Message.leaseUnchanged_iff.mp hunchanged).1

theorem poison_effect (hd : s.Distinct) (scanned : Message) (reason : String) :
    Effect cut s (.poison scanned reason) (.ok (s.recover scanned (·.poisoned reason)).1)
      (s.recover scanned (·.poisoned reason)).2 := by
  rcases recover_cases hd scanned (f := (·.poisoned reason)) fun _ => rfl with
    h | ⟨m, hfind, hid, hunchanged, h⟩
  · rw [h]
    exact .kept rfl rfl rfl rfl
  · rw [h]
    exact .changed hfind (.poison hid hunchanged) fun herror => by
      cases herror.symm.trans (Message.leaseUnchanged_iff.mp hunchanged).1

theorem requeue_effect (id : MessageId) :
    Effect cut s (.requeue id) (.ok (s.requeue id).1) (s.requeue id).2 := by
  unfold requeue
  split
  · exact .kept rfl rfl rfl rfl
  · rename_i m' hrequeue
    obtain ⟨m, hfind, hrequeued⟩ := Option.bind_eq_some_iff.mp hrequeue
    obtain ⟨hm, rfl⟩ := find?_some hfind
    have hid : m'.id = m.id := by rw [(Message.requeue?_eq_some hrequeued).2.2.2]; rfl
    split
    · exact .kept rfl rfl rfl rfl
    · rename_i hfree
      have : s.modify m.id (fun _ => m') = s.put m' := by rw [put, hid]
      rw [this]
      exact .changed hfind (.requeue hrequeued) fun _ => by simpa using hfree

theorem jobCall_only_jobs (s : Memory) (cut : Instant → Instant) {c : Call}
    (h : c.isJobCall = true) : ∃ jobs, (s.answerThrough cut c).2 = { s with jobs } := by
  cases c with
  | saveJob | loadJobs | recordFired => exact ⟨_, rfl⟩
  | removeJob name =>
      change ∃ jobs, (s.removeJob name).2 = { s with jobs }
      unfold Memory.removeJob
      split
      · exact ⟨s.jobs, rfl⟩
      · split
        · exact ⟨_, rfl⟩
        · exact ⟨s.jobs, rfl⟩
  | _ => cases h

/-- Every call has one of the effects. -/
theorem answerThrough_effect (cut : Instant → Instant) (hd : s.Distinct) (c : Call) :
    Effect cut s c (s.answerThrough cut c).1 (s.answerThrough cut c).2 := by
  cases c with
  | insert m id stamp => exact insert_effect m id stamp
  | claim routes token now => exact claim_effect hd routes token now
  | heartbeat id token now => exact heartbeat_effect hd id token now
  | complete id token => exact complete_effect hd id token
  | fail id token reason => exact fail_effect hd id token reason
  | scan threshold => exact .scanned
  | reset scanned => exact reset_effect hd scanned
  | poison scanned reason => exact poison_effect hd scanned reason
  | requeue id => exact requeue_effect id
  | purge now => exact .purged
  | removeJob name =>
      obtain ⟨jobs, hs⟩ := s.jobCall_only_jobs cut (c := .removeJob name) rfl
      rw [hs]
      exact .kept rfl rfl rfl rfl
  | _ => exact .kept rfl rfl rfl rfl

theorem answer_effect (hd : s.Distinct) (c : Call) :
    Effect id s c (s.answer c).1 (s.answer c).2 := by
  have h := answerThrough_effect id hd c
  rwa [answerThrough_id] at h

end Memory

end WorkQueue
