import Mathlib
import WorkQueue.Proofs.Lease.Run

/-! # Bounded redelivery

A message is handed out a limited number of times. Its retries count how often it came back, by a
recovery pass that saw room for one more or by its one requeue, so they tell how often it was handed
out; a message that recovery gave up has no way out of error.
-/

namespace WorkQueue

namespace Entry

/-- The message that a requeue took out of error. -/
def requeued? : Entry → Option MessageId
  | ⟨.requeue id, .ok true⟩ => some id
  | _ => none

theorem changed?_of_requeued? {e : Entry} {id : MessageId} (h : e.requeued? = some id) :
    e.changed? = some id := by
  obtain ⟨c, r⟩ := e
  cases c with
  | requeue other =>
      cases r with
      | error e => cases h
      | ok done => cases done <;> exact h
  | _ => cases h

end Entry

/-- How often a message was handed out. -/
def handouts (id : MessageId) (log : List Entry) : Nat :=
  log.countP fun e => e.handed?.map (·.id) = some id

/-- How often a message was requeued. -/
def requeues (id : MessageId) (log : List Entry) : Nat :=
  log.countP fun e => e.requeued? = some id

section Counts

variable {id : MessageId} {log : List Entry} {e : Entry}

theorem handouts_append (h : e.handed?.map (·.id) = some id) :
    handouts id (log ++ [e]) = handouts id log + 1 := by
  rw [handouts, List.countP_append, List.countP_singleton, if_pos (decide_eq_true h)]
  rfl

theorem handouts_append_of_ne (h : e.handed?.map (·.id) ≠ some id) :
    handouts id (log ++ [e]) = handouts id log := by
  rw [handouts, List.countP_append, List.countP_singleton, if_neg (by simpa using h)]
  rfl

theorem requeues_append (h : e.requeued? = some id) :
    requeues id (log ++ [e]) = requeues id log + 1 := by
  rw [requeues, List.countP_append, List.countP_singleton, if_pos (decide_eq_true h)]
  rfl

theorem requeues_append_of_ne (h : e.requeued? ≠ some id) :
    requeues id (log ++ [e]) = requeues id log := by
  rw [requeues, List.countP_append, List.countP_singleton, if_neg (by simpa using h)]
  rfl

theorem counts_append_of_ne (log : List Entry) (h : e.changed? ≠ some id) :
    handouts id (log ++ [e]) = handouts id log ∧ requeues id (log ++ [e]) = requeues id log := by
  refine ⟨handouts_append_of_ne fun hid => h ?_, requeues_append_of_ne fun hid =>
    h (Entry.changed?_of_requeued? hid)⟩
  obtain ⟨m, hm, rfl⟩ := Option.map_eq_some_iff.mp hid
  exact Entry.changed?_of_handed? hm

end Counts

namespace Message

/-- What a log counts for a stored message. -/
structure Counted (limit : Nat) (log : List Entry) (m : Message) : Prop where
  requeues : requeues m.id log = m.requeued.toNat
  waiting : m.status = .waiting →
    handouts m.id log = m.retryCount ∧ m.retryCount < limit + m.requeued.toNat
  taken : m.status = .processing ∨ m.status = .complete →
    handouts m.id log = m.retryCount + 1 ∧ m.retryCount < limit + m.requeued.toNat
  error : m.status = .error →
    handouts m.id log ≤ limit + m.requeued.toNat ∧ m.retryCount ≤ limit + m.requeued.toNat ∧
      (m.errorReason? ≠ some tooManyExpiries → handouts m.id log = m.retryCount + 1)

variable {cut : Instant → Instant} {c : Call} {r : c.Reply} {m m' : Message} {limit : Nat}
  {log : List Entry}

theorem Counted.bounds (h : m.Counted limit log) :
    handouts m.id log ≤ limit + WorkQueue.requeues m.id log ∧ WorkQueue.requeues m.id log ≤ 1 ∧
      m.retryCount ≤ limit + WorkQueue.requeues m.id log := by
  have hflag : m.requeued.toNat ≤ 1 := Bool.toNat_le m.requeued
  rw [h.requeues]
  cases hstatus : m.status with
  | waiting =>
      have := h.waiting hstatus
      omega
  | processing =>
      have := h.taken (.inl hstatus)
      omega
  | complete =>
      have := h.taken (.inr hstatus)
      omega
  | error =>
      have := h.error hstatus
      omega

theorem poisoned_reason (m : Message) (reason : String) :
    (m.poisoned reason).errorReason? = some reason :=
  Headers.getText?_setText_self _ _ _

/-- A recovery pass saw room for one more retry, or gave the message up with the reason of the
queue. -/
structure Recovers (limit : Nat) (c : Call) (m : Message) : Prop where
  reset : ∀ scanned, c = .reset scanned → m.retryCount + 1 < limit
  poison : ∀ scanned reason, c = .poison scanned reason →
    reason = tooManyExpiries ∧ m.retryCount + 1 < UInt32.size

theorem counted_of_waiting (hstatus : m.status = .waiting)
    (hrequeues : WorkQueue.requeues m.id log = m.requeued.toNat)
    (h : handouts m.id log = m.retryCount ∧ m.retryCount < limit + m.requeued.toNat) :
    m.Counted limit log where
  requeues := hrequeues
  waiting _ := h
  taken hs := by rcases hs with hs | hs <;> cases hstatus.symm.trans hs
  error hs := by cases hstatus.symm.trans hs

theorem counted_of_taken (hstatus : m.status = .processing ∨ m.status = .complete)
    (hrequeues : WorkQueue.requeues m.id log = m.requeued.toNat)
    (h : handouts m.id log = m.retryCount + 1 ∧ m.retryCount < limit + m.requeued.toNat) :
    m.Counted limit log where
  requeues := hrequeues
  waiting hs := by rcases hstatus with hm | hm <;> cases hm.symm.trans hs
  taken _ := h
  error hs := by rcases hstatus with hm | hm <;> cases hm.symm.trans hs

theorem counted_of_error (hstatus : m.status = .error)
    (hrequeues : WorkQueue.requeues m.id log = m.requeued.toNat)
    (h : handouts m.id log ≤ limit + m.requeued.toNat ∧
      m.retryCount ≤ limit + m.requeued.toNat ∧
      (m.errorReason? ≠ some tooManyExpiries → handouts m.id log = m.retryCount + 1)) :
    m.Counted limit log where
  requeues := hrequeues
  waiting hs := by cases hstatus.symm.trans hs
  taken hs := by rcases hs with hs | hs <;> cases hstatus.symm.trans hs
  error _ := h

/-- Each move keeps count: a retry is counted when the message comes back, a hand-out when it
leaves. -/
theorem Change.counted (h : m.Change cut c r m') (hm : m.Counted limit log)
    (hlimit : limit < UInt32.size) (hrecovers : m.Recovers limit c) :
    m'.Counted limit (log ++ [⟨c, r⟩]) := by
  have hkept (hnone : Entry.handed? ⟨c, r⟩ = none) :
      handouts m.id (log ++ [⟨c, r⟩]) = handouts m.id log :=
    handouts_append_of_ne (by rw [hnone]; exact (Option.some_ne_none _).symm)
  have hnever (hnone : Entry.requeued? ⟨c, r⟩ = none) :
      WorkQueue.requeues m.id (log ++ [⟨c, r⟩]) = m.requeued.toNat :=
    (requeues_append_of_ne (hnone ▸ (Option.some_ne_none _).symm)).trans hm.requeues
  cases h with
  | claim hclaimable =>
      obtain ⟨hcount, hlow⟩ := hm.waiting (isClaimable_waiting hclaimable)
      exact counted_of_taken (.inl rfl) (hnever rfl)
        ⟨(handouts_append rfl).trans (congrArg (· + 1) hcount), hlow⟩
  | renew hheld =>
      obtain ⟨hcount, hlow⟩ := hm.taken (.inl hheld)
      exact counted_of_taken (.inl hheld) (hnever rfl) ⟨(hkept rfl).trans hcount, hlow⟩
  | complete hheld =>
      obtain ⟨hcount, hlow⟩ := hm.taken (.inl hheld)
      exact counted_of_taken (.inr rfl) (hnever rfl) ⟨(hkept rfl).trans hcount, hlow⟩
  | fail hheld =>
      obtain ⟨hcount, hlow⟩ := hm.taken (.inl hheld)
      have hsame := (hkept rfl).trans hcount
      exact counted_of_error rfl (hnever rfl) ⟨hsame.trans_le hlow, hlow.le, fun _ => hsame⟩
  | @reset _ scanned _ hunchanged =>
      obtain ⟨hcount, -⟩ := hm.taken (.inl (leaseUnchanged_iff.mp hunchanged).1)
      have hroom := hrecovers.reset scanned rfl
      have hnext : m.reclaimed.retryCount = m.retryCount + 1 := nextRetry_eq (hroom.trans hlimit)
      refine counted_of_waiting rfl (hnever rfl) ?_
      rw [hnext]
      exact ⟨(hkept rfl).trans hcount, Nat.lt_add_right _ hroom⟩
  | @poison _ scanned reason _ hunchanged =>
      obtain ⟨hcount, hlow⟩ := hm.taken (.inl (leaseUnchanged_iff.mp hunchanged).1)
      obtain ⟨rfl, hfits⟩ := hrecovers.poison scanned reason rfl
      have hnext : (m.poisoned tooManyExpiries).retryCount = m.retryCount + 1 := nextRetry_eq hfits
      refine counted_of_error rfl (hnever rfl) ?_
      rw [hnext]
      exact ⟨((hkept rfl).trans hcount).trans_le hlow, hlow,
        fun h => absurd (poisoned_reason m _) h⟩
  | requeue hrequeue =>
      obtain ⟨herror, hfirst, hreason, rfl⟩ := requeue?_eq_some hrequeue
      obtain ⟨hbound, -, hcount⟩ := hm.error herror
      have hcounted := hcount hreason
      have hrequeues := hm.requeues
      simp only [hfirst, Bool.toNat_false, Nat.add_zero] at hbound hrequeues
      have hnext : m.requeuedOf.retryCount = m.retryCount + 1 :=
        nextRetry_eq (hcounted ▸ hbound.trans_lt hlimit)
      refine counted_of_waiting rfl ((requeues_append rfl).trans (congrArg (· + 1) hrequeues)) ?_
      rw [hnext]
      exact ⟨(hkept rfl).trans hcounted, Nat.lt_succ_of_le (hcounted ▸ hbound)⟩

theorem Counted.append_of_ne {e : Entry} (h : m.Counted limit log)
    (hother : e.changed? ≠ some m.id) :
    m.Counted limit (log ++ [e]) := by
  obtain ⟨hhandouts, hrequeues⟩ := counts_append_of_ne log hother
  exact ⟨hrequeues.trans h.requeues, hhandouts ▸ h.waiting, hhandouts ▸ h.taken,
    hhandouts ▸ h.error⟩

theorem Change.not_given_up (h : m.Change cut c r m') (herror : m.status = .error) :
    m.errorReason? ≠ some tooManyExpiries := by
  cases h with
  | claim hclaimable => cases herror.symm.trans (isClaimable_waiting hclaimable)
  | renew hheld | complete hheld | fail hheld => cases herror.symm.trans hheld
  | reset _ hunchanged | poison _ hunchanged =>
      cases herror.symm.trans (leaseUnchanged_iff.mp hunchanged).1
  | requeue hrequeue => exact (requeue?_eq_some hrequeue).2.2.1

end Message

/-! ## A run -/

section Run

variable {allowed : MonitorConfig → Prop} {cut : Instant → Instant} {readings : List Instant}
  {log : List Entry} {s s' : Memory} {c : Call} {r : c.Reply} {limit : Nat}

theorem Effect.of_changed? (h : Effect cut s c r s') {id : MessageId}
    (hid : Entry.changed? ⟨c, r⟩ = some id) :
    (∃ m ∈ s.messages, m.id = id) ∧ ∃ m ∈ s'.messages, m.id = id := by
  cases h with
  | kept _ _ hchanged => cases hchanged.symm.trans hid
  | scanned | added | purged => cases hid
  | changed hfind hchange =>
      obtain rfl := hchange.eq_of_changed? hid
      have hm := (Memory.find?_some hfind).1
      exact ⟨⟨_, hm, rfl⟩, _, Memory.mem_put_self hm hchange.keeps.id, hchange.keeps.id⟩

theorem Call.Lawful.recovers (h : c.Lawful allowed readings log) (hs : s.Sound log)
    (hallowed : ∀ config, allowed config → config.maxRetries.toNat ≤ limit) {m m' : Message}
    (hm : m ∈ s.messages) (hchange : m.Change cut c r m') : m.Recovers limit c := by
  have same {config : MonitorConfig} {scanned : Message}
      (hscanned : config.Scanned readings log scanned) (hid : m.id = scanned.id)
      (hunchanged : m.leaseUnchanged scanned = true) : scanned = m := by
    obtain ⟨-, -, -, -, -, -, e, he, -, hfound⟩ := hscanned
    exact hs.scanned_eq he hfound hm hid hunchanged
  constructor
  · rintro scanned rfl
    cases hchange with
    | reset hid hunchanged =>
        cases h with
        | plain hsnapshot => cases hsnapshot
        | reset hallow hscanned hlow =>
            rw [same hscanned hid hunchanged] at hlow
            exact hlow.trans_le (hallowed _ hallow)
  · rintro scanned reason rfl
    cases hchange with
    | poison hid hunchanged =>
        cases h with
        | plain hsnapshot => cases hsnapshot
        | poison hallow hscanned hfits =>
            rw [same hscanned hid hunchanged] at hfits
            exact ⟨rfl, hfits⟩

/-- What a log counts for the messages that were inserted. -/
structure Memory.Tally (limit : Nat) (log : List Entry) (s : Memory) : Prop where
  counted : ∀ m ∈ s.messages, m.Counted limit log
  bounded : ∀ id, handouts id log ≤ limit + requeues id log ∧ requeues id log ≤ 1
  fresh : ∀ id, (∀ e ∈ log, e.call.insertedId? ≠ some id) →
    handouts id log = 0 ∧ requeues id log = 0

theorem Memory.Tally.counted_step (ht : s.Tally limit log) (hfresh : c.Fresh log)
    (hpos : 1 ≤ limit) (hlimit : limit < UInt32.size)
    (hrecovers : ∀ m ∈ s.messages, ∀ m', m.Change cut c r m' → m.Recovers limit c)
    (heffect : Effect cut s c r s') : ∀ m ∈ s'.messages, m.Counted limit (log ++ [⟨c, r⟩]) := by
  intro m hm
  have hnone : none ≠ some m.id := (Option.some_ne_none _).symm
  cases heffect with
  | kept hmessages _ hchanged =>
      exact (ht.counted m (hmessages ▸ hm)).append_of_ne (hchanged ▸ hnone)
  | scanned => exact (ht.counted m hm).append_of_ne hnone
  | @added new id stamp =>
      rcases List.mem_append.mp hm with hm | hm
      · exact (ht.counted m hm).append_of_ne hnone
      · obtain rfl := List.mem_singleton.mp hm
        obtain ⟨hhandouts, hrequeues⟩ := ht.fresh id (hfresh.id_fresh id rfl)
        exact (Message.counted_of_waiting rfl hrequeues ⟨hhandouts, hpos⟩).append_of_ne hnone
  | @changed c r a a' hfind hchange =>
      have ha := (find?_some hfind).1
      rcases (mem_put ha hchange.keeps.id).mp hm with rfl | ⟨hm, hne⟩
      · exact hchange.counted (ht.counted a ha) hlimit (hrecovers a ha m hchange)
      · exact (ht.counted m hm).append_of_ne fun hid => hne (hchange.eq_of_changed? hid)
  | purged => exact (ht.counted m (List.mem_of_mem_filter hm)).append_of_ne hnone

theorem Memory.Tally.step (ht : s.Tally limit log) (hs : s.Sound log) (hfresh : c.Fresh log)
    (hpos : 1 ≤ limit) (hlimit : limit < UInt32.size)
    (hrecovers : ∀ m ∈ s.messages, ∀ m', m.Change cut c r m' → m.Recovers limit c)
    (heffect : Effect cut s c r s') : s'.Tally limit (log ++ [⟨c, r⟩]) := by
  have hcounted := ht.counted_step hfresh hpos hlimit hrecovers heffect
  refine ⟨hcounted, fun id => ?_, fun id hid => ?_⟩
  · by_cases hchanged : Entry.changed? ⟨c, r⟩ = some id
    · obtain ⟨-, m, hm, rfl⟩ := heffect.of_changed? hchanged
      obtain ⟨hhandouts, hrequeues, -⟩ := (hcounted m hm).bounds
      exact ⟨hhandouts, hrequeues⟩
    · obtain ⟨hhandouts, hrequeues⟩ := counts_append_of_ne log hchanged
      rw [hhandouts, hrequeues]
      exact ht.bounded id
  · have hold : ∀ e ∈ log, e.call.insertedId? ≠ some id := fun e he =>
      hid e (List.mem_append_left _ he)
    have hchanged : Entry.changed? ⟨c, r⟩ ≠ some id := fun hchanged => by
      obtain ⟨⟨m, hm, rfl⟩, -⟩ := heffect.of_changed? hchanged
      obtain ⟨e, he, hknown⟩ := hs.known m hm
      exact hold e he hknown
    obtain ⟨hhandouts, hrequeues⟩ := counts_append_of_ne log hchanged
    rw [hhandouts, hrequeues]
    exact ht.fresh id hold

theorem Trace.tally_of_le (h : Trace allowed cut readings log s) (hpos : 1 ≤ limit)
    (hlimit : limit < UInt32.size)
    (hallowed : ∀ config, allowed config → config.maxRetries.toNat ≤ limit) :
    s.Tally limit log := by
  induction h with
  | start =>
      refine ⟨fun m hm => ?_, fun id => ⟨Nat.zero_le _, Nat.zero_le _⟩, fun id _ => ⟨rfl, rfl⟩⟩
      cases hm
  | tick _ _ ih => exact ih
  | call htrace hfresh hlawful heffect ih =>
      exact ih.step htrace.sound hfresh hpos hlimit
        (fun m hm m' hchange => hlawful.recovers htrace.sound hallowed hm hchange) heffect

theorem Trace.tally (h : Trace allowed cut readings log s) (hpos : 1 ≤ limit)
    (hlimit : limit < UInt32.size)
    (hallowed : ∀ config, allowed config → config.maxRetries.toNat = limit) :
    s.Tally limit log :=
  h.tally_of_le hpos hlimit fun config hallow => (hallowed config hallow).le

/-- However the monitors are configured, a message has at most as many retries as a word of 32 bits
holds. -/
theorem Trace.counted (h : Trace allowed cut readings log s) {m : Message} (hm : m ∈ s.messages) :
    m.Counted (UInt32.size - 1) log :=
  (h.tally_of_le (by decide) (by decide)
    fun config _ => Nat.le_pred_of_lt config.maxRetries.toNat_lt_size).counted m hm

/-- A message that recovery gave up is stored as it was given up, and was not handed out since. -/
theorem Trace.given_up (h : Trace allowed cut readings log s) {earlier later : List Entry}
    {scanned : Message} {reason : String}
    (hlog : log = earlier ++ ⟨.poison scanned reason, .ok true⟩ :: later) :
    scanned.poisoned Message.tooManyExpiries ∈ s.messages ∧
      ∀ e ∈ later, ∀ m ∈ e.handed?, m.id ≠ scanned.id := by
  induction h generalizing earlier later with
  | start => exact absurd hlog.symm (List.append_ne_nil_of_right_ne_nil _ (List.cons_ne_nil _ _))
  | tick _ _ ih => exact ih hlog
  | @call readings log s s' c r htrace hfresh hlawful heffect ih =>
      have hd := htrace.sound.distinct
      rcases log_cases hlog with ⟨rfl, -, hlast⟩ | ⟨before, rfl, hbefore⟩
      · obtain ⟨rfl, hr⟩ := Entry.mk.inj hlast
        obtain rfl := eq_of_heq hr
        refine ⟨?_, fun e he => by cases he⟩
        cases hlawful with
        | plain hsnapshot => cases hsnapshot
        | poison hallow hscanned =>
            obtain ⟨-, -, -, -, -, -, e, he, -, hfound⟩ := hscanned
            cases heffect with
            | kept _ _ hchanged => cases hchanged
            | changed hfind hchange =>
                have hm := (Memory.find?_some hfind).1
                cases hchange with
                | poison hid hunchanged =>
                    rw [htrace.sound.scanned_eq he hfound hm hid hunchanged]
                    exact Memory.mem_put_self hm rfl
      · obtain ⟨hstored, hothers⟩ := ih hbefore
        have hreason := Message.poisoned_reason scanned Message.tooManyExpiries
        refine ⟨?_, fun e he m hm hid => ?_⟩
        · rcases heffect.stays_or_changed hd hstored Status.noConfusion with
            ⟨hstays, -⟩ | ⟨m', hchange, -⟩
          · exact hstays
          · exact absurd hreason (hchange.not_given_up rfl)
        · rcases List.mem_append.mp he with he | he
          · exact hothers e he m hm hid
          · obtain rfl := List.mem_singleton.mp he
            obtain ⟨old, hold, hsame, hwaiting⟩ := heffect.handed_waiting hm
            obtain rfl := hd.eq_of_id hold hstored (hsame.trans hid)
            cases hwaiting

end Run

namespace World

variable {w : World}

/-- Under monitors with one limit of retries, a message is handed out at most once more than the
limit, and not more than the limit if it was never requeued. Once recovery gave it up it never
changes and is never handed out again. -/
theorem redelivery_bounded {limit : UInt32} (hlimit : 1 ≤ limit.toNat)
    (hw : w.Reachable (·.maxRetries = limit)) (hdated : w.Dated) (id : MessageId) :
    handouts id w.log ≤ limit.toNat + 1 ∧
      (requeues id w.log = 0 → handouts id w.log ≤ limit.toNat) ∧
      (∀ m, (w.store.answer (.get id)).1 = .ok (some m) → m.retryCount ≤ limit.toNat + 1) ∧
      ∀ earlier later scanned reason,
        w.log = earlier ++ ⟨.poison scanned reason, .ok true⟩ :: later → scanned.id = id →
          (w.store.answer (.get id)).1 = .ok (some (scanned.poisoned Message.tooManyExpiries)) ∧
            ∀ e ∈ later, ∀ m ∈ e.handed?, m.id ≠ id := by
  obtain ⟨⟨cut, s, hholds, hkeeps, htrace⟩, -⟩ := hw.trace hdated
  have htally := htrace.tally hlimit limit.toNat_lt_size fun _ h => congrArg UInt32.toNat h
  obtain ⟨hhandouts, hrequeues⟩ := htally.bounded id
  refine ⟨by omega, fun hnever => by omega, fun m hm => ?_, ?_⟩
  · rw [hholds.get hkeeps] at hm
    obtain ⟨hstored, rfl⟩ := Memory.find?_some (Except.ok.inj hm)
    have := (htally.counted m hstored).bounds
    omega
  · rintro earlier later scanned reason hlog rfl
    obtain ⟨hstored, hothers⟩ := htrace.given_up hlog
    rw [hholds.get hkeeps]
    exact ⟨congrArg Except.ok (htrace.sound.distinct.find?_of_mem hstored), hothers⟩

/-- With no room for a retry, the first expiry of a lease is the last. -/
theorem redelivery_bounded_single :
    ∃ w : World, w.log.length = 4 ∧ handouts ⟨.ofNat 1⟩ w.log ≤ 1 ∧
      ∃ m, (w.store.answer (.get ⟨.ofNat 1⟩)).1 = .ok (some m) ∧ m.status = .error := by
  let insert : Call := .insert { payload := [1] } ⟨.ofNat 1⟩ .epoch
  let claim : Call := .claim [] ⟨"a"⟩ .epoch
  let waiting := NewMessage.toMessage { payload := [1] } ⟨.ofNat 1⟩ 1 .epoch
  let held := waiting.beginLease ⟨"a"⟩ .epoch
  let poison : Call := .poison held Message.tooManyExpiries
  let inserted : Entry := ⟨insert, .ok ⟨.ofNat 1⟩⟩
  let claimed : Entry := ⟨claim, .ok (some held)⟩
  have hstart : Reachable (·.maxRetries = 1) _ := .memory .epoch
  have hinsert := hstart.step (@Step.begin _ _ (.call insert) ⟨rfl, rfl⟩)
  have hinserted := hinsert.step (@Step.call _ _ [] [] insert _ rfl (by decide))
  change Reachable _ ⟨.memory ⟨[waiting], [], 1⟩, .epoch, [], [.done ()], [inserted]⟩ at hinserted
  have hclaim := hinserted.step (@Step.begin _ _ (.claim ⟨"a"⟩ []) trivial)
  have hclaimed := hclaim.step (@Step.call _ _ [] [.done ()] claim _ rfl (by decide))
  change Reachable _ ⟨.memory ⟨[held], [], 1⟩, .epoch, [], [.done (), .done ()],
    [inserted, claimed]⟩ at hclaimed
  -- the lease is two seconds old, and the threshold is one second
  have hticked := hclaimed.step (@Step.tick _ _ ⟨2, 0, by decide⟩)
  have hrecover := hticked.step (@Step.begin _ _ (.recover ⟨⟨1, 0, by decide⟩, ⟨1, 0, by decide⟩,
    ⟨1, 0, by decide⟩, ⟨1, 0, by decide⟩, 1⟩) rfl)
  change Reachable _ ⟨.memory ⟨[held], [], 1⟩, ⟨2, 0, by decide⟩, [.epoch],
    [Errand.procedure ⟨2, 0, by decide⟩ (.recover ⟨⟨1, 0, by decide⟩, ⟨1, 0, by decide⟩,
      ⟨1, 0, by decide⟩, ⟨1, 0, by decide⟩, 1⟩), .done (), .done ()],
    [inserted, claimed]⟩ at hrecover
  have hscanned := hrecover.step
    (@Step.call _ _ [] [.done (), .done ()] (.scan ⟨1, 0, by decide⟩) _ rfl (by decide))
  have hpoisoned := hscanned.step (@Step.call _ _ [] [.done (), .done ()] poison _ rfl (by decide))
  obtain ⟨-, hnever, -, hgiven⟩ := redelivery_bounded (by decide) hpoisoned
    (fun e he t ht => by cases ht) ⟨.ofNat 1⟩
  have hgone := hgiven [inserted, claimed, ⟨.scan ⟨1, 0, by decide⟩, .ok [held]⟩] [] held
    Message.tooManyExpiries rfl rfl
  exact ⟨_, rfl, hnever rfl, _, hgone.1, rfl⟩

end World

end WorkQueue
