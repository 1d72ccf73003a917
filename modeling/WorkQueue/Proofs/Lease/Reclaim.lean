import Mathlib
import WorkQueue.Proofs.Lease.Fencing
import WorkQueue.Proofs.Lease.Redelivery

/-! # Leases taken back

A recovery pass takes a lease back of a message as its scan saw it. Whoever renewed, settled or took
back that lease since has changed what the scan saw, so of all passes that saw a lease one succeeds
at most, and each success is counted in the retries of the message.
-/

namespace WorkQueue

namespace Entry

/-- The lease that a call took back. -/
def reclaimed? : Entry → Option Lease
  | ⟨.reset scanned, .ok true⟩ => scanned.lease?
  | ⟨.poison scanned _, .ok true⟩ => scanned.lease?
  | _ => none

/-- The message that a call counted one more retry of. -/
def retried? : Entry → Option MessageId
  | ⟨.reset scanned, .ok true⟩ => some scanned.id
  | ⟨.poison scanned _, .ok true⟩ => some scanned.id
  | ⟨.requeue id, .ok true⟩ => some id
  | _ => none

theorem ended?_of_reclaimed? {e : Entry} {lease : Lease} (h : e.reclaimed? = some lease) :
    e.ended? = some lease ∧ e.completed? = none := by
  obtain ⟨c, r⟩ := e
  cases c with
  | reset | poison =>
      cases r with
      | error e => cases h
      | ok changed =>
          cases changed with
          | false => cases h
          | true => exact ⟨h, rfl⟩
  | _ => cases h

theorem changed?_of_retried? {e : Entry} {id : MessageId} (h : e.retried? = some id) :
    e.changed? = some id := by
  obtain ⟨c, r⟩ := e
  cases c with
  | reset | poison | requeue =>
      cases r with
      | error e => cases h
      | ok changed =>
          cases changed with
          | false => cases h
          | true => exact h
  | _ => cases h

end Entry

/-- How often a lease was taken back. -/
def reclaims (lease : Lease) (log : List Entry) : Nat :=
  log.countP fun e => e.reclaimed? = some lease

/-- How often a message was retried. -/
def retries (id : MessageId) (log : List Entry) : Nat :=
  log.countP fun e => e.retried? = some id

theorem retries_append (id : MessageId) (log : List Entry) (e : Entry) :
    retries id (log ++ [e]) = retries id log + if e.retried? = some id then 1 else 0 := by
  rw [retries, List.countP_append, List.countP_singleton]
  simp only [decide_eq_true_eq]
  rfl

theorem reclaims_append (lease : Lease) (log : List Entry) (e : Entry) :
    reclaims lease (log ++ [e]) =
      reclaims lease log + if e.reclaimed? = some lease then 1 else 0 := by
  rw [reclaims, List.countP_append, List.countP_singleton]
  simp only [decide_eq_true_eq]
  rfl

namespace Message

variable {cut : Instant → Instant} {c : Call} {r : c.Reply} {m m' : Message} {limit : Nat}
  {log : List Entry}

theorem Change.retried (h : m.Change cut c r m') :
    Entry.retried? ⟨c, r⟩ = some m.id ∧ m'.retryCount = m.nextRetry ∨
      Entry.retried? ⟨c, r⟩ = none ∧ m'.retryCount = m.retryCount := by
  cases h with
  | claim | renew | complete | fail => exact .inr ⟨rfl, rfl⟩
  | reset hid | poison hid => exact .inl ⟨congrArg some hid.symm, rfl⟩
  | requeue hrequeue =>
      obtain ⟨-, -, -, rfl⟩ := requeue?_eq_some hrequeue
      exact .inl ⟨rfl, rfl⟩

/-- One more retry of a message fits, since recovery and requeue stop before. -/
theorem Change.nextRetry_eq (h : m.Change cut c r m') (hm : m.Counted limit log)
    (hlimit : limit < UInt32.size) (hrecovers : m.Recovers limit c)
    (hretried : Entry.retried? ⟨c, r⟩ = some m.id) : m.nextRetry = m.retryCount + 1 := by
  apply Message.nextRetry_eq
  cases h with
  | claim | renew | complete | fail => cases hretried
  | @reset _ scanned => exact (hrecovers.reset scanned rfl).trans hlimit
  | @poison _ scanned reason => exact (hrecovers.poison scanned reason rfl).2
  | requeue hrequeue =>
      obtain ⟨herror, hfirst, hreason, -⟩ := requeue?_eq_some hrequeue
      obtain ⟨hbound, -, hcount⟩ := hm.error herror
      have hcounted := hcount hreason
      simp only [hfirst, Bool.toNat_false, Nat.add_zero] at hbound
      omega

end Message

/-! ## What a trace tells of leases taken back -/

section Run

variable {allowed : MonitorConfig → Prop} {cut : Instant → Instant} {readings : List Instant}
  {log : List Entry} {s s' : Memory} {c : Call} {r : c.Reply} {lease : Lease}

/-- A lease is taken back once at most, and it ended then. -/
theorem Trace.reclaims_le (h : Trace allowed cut readings log s) :
    reclaims lease log ≤ 1 ∧ (0 < reclaims lease log → Ended log lease) := by
  induction h with
  | start => exact ⟨Nat.zero_le _, fun hpos => absurd hpos (Nat.lt_irrefl _)⟩
  | tick _ _ ih => exact ih
  | @call _ log _ _ c r htrace hfresh hlawful heffect ih =>
      rw [reclaims_append]
      split
      · rename_i hreclaimed
        obtain ⟨hended, hnone⟩ := Entry.ended?_of_reclaimed? hreclaimed
        obtain ⟨-, hheld | hcompleted⟩ :=
          heffect.ended htrace.sound (hlawful.admissible hfresh) hended
        · have hcurrent := htrace.held_iff.mp hheld
          have hzero : reclaims lease log = 0 := by
            by_contra hne
            exact htrace.not_current (ih.2 (Nat.pos_of_ne_zero hne)) hcurrent
          exact ⟨by omega, fun _ => hcurrent.end hended⟩
        · cases hnone.symm.trans hcompleted
      · exact ⟨ih.1, fun hpos => (ih.2 hpos).append _⟩

/-- The retries of the stored messages are those that a log counts. -/
structure Memory.Retried (log : List Entry) (s : Memory) : Prop where
  counted : ∀ m ∈ s.messages, m.retryCount = retries m.id log
  fresh : ∀ id, (∀ e ∈ log, e.call.insertedId? ≠ some id) → retries id log = 0

theorem retries_append_of_ne {id : MessageId} {e : Entry} (h : e.changed? ≠ some id) :
    retries id (log ++ [e]) = retries id log := by
  rw [retries_append, if_neg fun hretried => h (Entry.changed?_of_retried? hretried)]
  rfl

theorem Memory.Retried.counted_step (hr : s.Retried log) (hfresh : c.Fresh log)
    (hnext : ∀ m ∈ s.messages, ∀ m', m.Change cut c r m' →
      Entry.retried? ⟨c, r⟩ = some m.id → m.nextRetry = m.retryCount + 1)
    (heffect : Effect cut s c r s') :
    ∀ m ∈ s'.messages, m.retryCount = retries m.id (log ++ [⟨c, r⟩]) := by
  intro m' hm'
  have hquiet (hnone : Entry.changed? ⟨c, r⟩ = none) :
      retries m'.id (log ++ [⟨c, r⟩]) = retries m'.id log :=
    retries_append_of_ne (hnone ▸ (Option.some_ne_none _).symm)
  cases heffect with
  | kept hmessages _ hchanged =>
      rw [hquiet hchanged]
      exact hr.counted m' (hmessages ▸ hm')
  | scanned => exact (hr.counted m' hm').trans (hquiet rfl).symm
  | added =>
      rw [hquiet rfl]
      rcases List.mem_append.mp hm' with hm | hm
      · exact hr.counted m' hm
      · obtain rfl := List.mem_singleton.mp hm
        exact (hr.fresh _ (hfresh.id_fresh _ rfl)).symm
  | @changed c r m a hfind hchange =>
      have hm := (find?_some hfind).1
      rcases (mem_put hm hchange.keeps.id).mp hm' with rfl | ⟨hold, hne⟩
      · rw [retries_append, hchange.keeps.id, ← hr.counted m hm]
        rcases hchange.retried with ⟨hretried, hcount⟩ | ⟨hnone, hsame⟩
        · rw [if_pos hretried, hcount]
          exact hnext m hm m' hchange hretried
        · rw [if_neg (hnone ▸ (Option.some_ne_none _).symm)]
          exact hsame
      · rw [retries_append_of_ne fun hid => hne (hchange.eq_of_changed? hid)]
        exact hr.counted m' hold
  | purged => exact (hr.counted m' (List.mem_of_mem_filter hm')).trans (hquiet rfl).symm

theorem Trace.retried (h : Trace allowed cut readings log s) : s.Retried log := by
  induction h with
  | start => exact ⟨fun m hm => (by cases hm), fun _ _ => rfl⟩
  | tick _ _ ih => exact ih
  | @call _ log s s' c r htrace hfresh hlawful heffect ih =>
      have hallowed (config : MonitorConfig) (_ : allowed config) :
          config.maxRetries.toNat ≤ UInt32.size - 1 :=
        Nat.le_sub_one_of_lt config.maxRetries.toNat_lt_size
      have htally := htrace.tally_of_le (by decide) (by decide) hallowed
      refine ⟨ih.counted_step hfresh (fun m hm m' hchange => ?_) heffect, fun id hid => ?_⟩
      · exact hchange.nextRetry_eq (htally.counted m hm) (by decide)
          (hlawful.recovers htrace.sound hallowed hm hchange)
      · have hold : ∀ e ∈ log, e.call.insertedId? ≠ some id := fun e he =>
          hid e (List.mem_append_left _ he)
        rw [retries_append_of_ne, ih.fresh id hold]
        intro hchanged
        obtain ⟨⟨m, hm, rfl⟩, -⟩ := heffect.of_changed? hchanged
        obtain ⟨e, he, hknown⟩ := htrace.sound.known m hm
        exact hold e he hknown

/-! ## Snapshots that are out of date -/

/-- What is held under the lease was last renewed at the cutoff or later. -/
def Memory.RenewedSince (cut : Instant → Instant) (lease : Lease) (cutoff : Instant)
    (s : Memory) : Prop :=
  ∀ m ∈ s.messages, m.id = lease.id → m.ownerToken = some lease.token →
    ∃ beat, m.lastHeartbeat = some (cut beat) ∧ cutoff ≤ beat

theorem Memory.Released.renewedSince (h : s.Released lease) (cutoff : Instant) :
    s.RenewedSince cut lease cutoff := fun m hm hid howned => absurd howned (h m hm hid)

variable {cutoff : Instant}

theorem Effect.renewedSince (h : Effect cut s c r s') {now : Instant}
    (hrenewed : Entry.renewedAt? lease ⟨c, r⟩ = some now) (hnow : cutoff ≤ now) :
    s'.RenewedSince cut lease cutoff := by
  obtain ⟨hcall, hchanged⟩ := Entry.renewedAt?_eq_some hrenewed
  cases h with
  | kept _ _ hnone => cases hnone.symm.trans hchanged
  | scanned | added | purged => cases hcall
  | changed hfind hchange =>
      have hm := (Memory.find?_some hfind).1
      intro a ha hid howned
      rcases (Memory.mem_put hm hchange.keeps.id).mp ha with rfl | ⟨-, hne⟩
      · cases hchange with
        | renew =>
            obtain ⟨-, -, rfl⟩ := Call.heartbeat.inj hcall
            exact ⟨_, rfl, hnow⟩
        | _ => cases hcall
      · exact absurd (hid.trans (hchange.eq_of_changed? hchanged)) hne

theorem Memory.RenewedSince.step (h : s.RenewedSince cut lease cutoff) (hs : s.Sound log)
    (hfresh : c.Fresh log) (hused : ∃ e ∈ log, e.call.claimToken? = some lease.token)
    (hprompt : ∀ t ∈ c.reading?, cutoff ≤ t) (heffect : Effect cut s c r s') :
    s'.RenewedSince cut lease cutoff := by
  intro m' hm' hid howned
  rcases heffect.origin hm' with hm | ⟨m, hm, hchange⟩ | ⟨new, id, stamp, -, rfl⟩
  · exact h m' hm hid howned
  · cases hchange with
    | claim =>
        obtain ⟨e, he, htoken⟩ := hused
        exact absurd htoken (hfresh.token_fresh _ howned e he)
    | renew => exact ⟨_, rfl, hprompt _ rfl⟩
    | complete | fail | reset | poison => cases howned
    | requeue hrequeue =>
        obtain ⟨herror, -, -, rfl⟩ := Message.requeue?_eq_some hrequeue
        have hnone := ((hs.coherent m hm).released (herror ▸ Status.noConfusion)).1
        cases hnone.symm.trans howned
  · cases howned

/-- Who renewed or ended a lease after a scan at a cutoff has renewed it since the cutoff, or holds
nothing under it any longer. -/
theorem Trace.renewedSince (h : Trace allowed cut readings log s) {earlier later : List Entry}
    {first : Entry} {m : Message} (hlog : log = earlier ++ first :: later) (hm : m ∈ first.found)
    (hlease : m.lease? = some lease)
    (hprompt : ∀ e ∈ later, ∀ t ∈ e.call.reading?, cutoff ≤ t)
    (hlater : ∃ e ∈ later, (e.renewedAt? lease).isSome ∨ e.ended? = some lease) :
    s.RenewedSince cut lease cutoff := by
  induction h generalizing later with
  | start => exact absurd hlog.symm (List.append_ne_nil_of_right_ne_nil _ (List.cons_ne_nil _ _))
  | tick _ _ ih => exact ih hlog hprompt hlater
  | @call _ log _ _ c r htrace hfresh hlawful heffect ih =>
      obtain ⟨last, hlast, hspent⟩ := hlater
      rcases log_cases hlog with ⟨rfl, -, -⟩ | ⟨before, rfl, hbefore⟩
      · cases hlast
      · have hcall := hprompt ⟨c, r⟩ (List.mem_append_right _ (List.mem_singleton_self _))
        rcases List.mem_append.mp hlast with hlast | hlast
        · have hfirst : first ∈ log := hbefore ▸ List.mem_append_right _ List.mem_cons_self
          obtain ⟨token, howner, hused, -⟩ := htrace.sound.scanned first hfirst m hm
          obtain ⟨-, howned, -⟩ := Message.lease?_eq_some.mp hlease
          obtain rfl := Option.some.inj (howner.symm.trans howned)
          exact (ih hbefore (fun e he => hprompt e (List.mem_append_left _ he))
            ⟨last, hlast, hspent⟩).step htrace.sound hfresh hused hcall heffect
        · obtain rfl := List.mem_singleton.mp hlast
          rcases hspent with hrenewed | hended
          · obtain ⟨now, hnow⟩ := Option.isSome_iff_exists.mp hrenewed
            obtain ⟨rfl, -⟩ := Entry.renewedAt?_eq_some hnow
            exact heffect.renewedSince hnow (hcall now rfl)
          · have hadmissible := hlawful.admissible hfresh
            exact (heffect.ended htrace.sound hadmissible hended).1.renewedSince cutoff

theorem Trace.lease_changed (h : Trace allowed cut readings log s)
    (hcut : ∀ x y, cut x < cut y → x < y) {earlier later : List Entry} {found : List Message}
    {m : Message} (hlog : log = earlier ++ ⟨.scan cutoff, .ok found⟩ :: later) (hm : m ∈ found)
    (hlease : m.lease? = some lease)
    (hprompt : ∀ e ∈ later, ∀ t ∈ e.call.reading?, cutoff ≤ t)
    (hlater : ∃ e ∈ later, (e.renewedAt? lease).isSome ∨ e.ended? = some lease) :
    ∀ a ∈ s.messages, a.id = m.id → a.leaseUnchanged m = false := by
  intro a ha hsame
  rw [Bool.eq_false_iff]
  intro hunchanged
  obtain ⟨-, howner, hbeat⟩ := Message.leaseUnchanged_iff.mp hunchanged
  obtain ⟨-, howned, hid⟩ := Message.lease?_eq_some.mp hlease
  obtain ⟨beat, hrenewed, hle⟩ :=
    h.renewedSince hlog hm hlease hprompt hlater a ha (hsame.trans hid) (howner.trans howned)
  have hexpired := h.leaseExpired ⟨.scan cutoff, .ok found⟩
    (hlog ▸ List.mem_append_right _ List.mem_cons_self) cutoff rfl m hm
  simp only [Message.leaseExpired, ← hbeat, hrenewed, Option.all_some, Bool.and_eq_true,
    decide_eq_true_eq] at hexpired
  exact absurd (hcut _ _ hexpired.2) (not_lt.mpr hle)

theorem Memory.recover_changed {scanned : Message} {f : Message → Message}
    (h : ∀ a ∈ s.messages, a.id = scanned.id → a.leaseUnchanged scanned = false) :
    s.recover scanned f = (false, s) := by
  unfold recover
  split
  · rfl
  · rename_i a hfind
    obtain ⟨ha, hid⟩ := find?_some hfind
    rw [h a ha hid]
    rfl

end Run

/-- A store refuses to take a lease back that was renewed or ended after the scan that saw it. -/
theorem Traced.recover_refused {allowed : MonitorConfig → Prop} {cut : Instant → Instant}
    {store : Backend} {readings : List Instant} {log : List Entry} {s : Memory}
    (h : Traced allowed cut store readings log s) {earlier later : List Entry} {cutoff : Instant}
    {found : List Message} {m : Message} {lease : Lease}
    (hlog : log = earlier ++ ⟨.scan cutoff, .ok found⟩ :: later) (hm : m ∈ found)
    (hlease : m.lease? = some lease)
    (hprompt : ∀ e ∈ later, ∀ t ∈ e.call.reading?, cutoff ≤ t)
    (hlater : ∃ e ∈ later, (e.renewedAt? lease).isSome ∨ e.ended? = some lease) :
    store.answer (.reset m) = (.ok false, store) ∧
      ∀ reason, store.answer (.poison m reason) = (.ok false, store) := by
  have hchanged := h.trace.lease_changed (fun _ _ => h.holds.lt_of_cut) hlog hm hlease hprompt
    hlater
  have hscan : ∃ e ∈ log, m ∈ e.found :=
    ⟨⟨.scan cutoff, .ok found⟩, hlog ▸ List.mem_append_right _ List.mem_cons_self, hm⟩
  have hadmissible {c : Call} (hid : c.insertedId? = none) (htoken : c.claimToken? = none)
      (hsnapshot : c.snapshot? = some m) : c.Admissible log := by
    refine ⟨⟨by simp [hid], by simp [htoken]⟩, fun scanned hscanned => ?_⟩
    obtain rfl := Option.some.inj (hsnapshot.symm.trans hscanned)
    exact hscan
  constructor
  · refine h.answer_same (c := .reset m) (fun t hr => ?_) ?_
    · exact t.reset_agrees h.trace.sound hr (hadmissible rfl rfl rfl)
    · simp only [Memory.answerThrough, Memory.answer, Memory.recover_changed hchanged]
  · intro reason
    refine h.answer_same (c := .poison m reason) (fun t hr => ?_) ?_
    · exact t.poison_agrees h.trace.sound hr (hadmissible rfl rfl rfl)
    · simp only [Memory.answerThrough, Memory.answer, Memory.recover_changed hchanged]

end WorkQueue
