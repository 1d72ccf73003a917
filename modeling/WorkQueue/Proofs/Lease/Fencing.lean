import Mathlib
import WorkQueue.Proofs.Lease.Exclusivity

/-! # Leases that ended

A lease begins with the claim that hands a message out, and it ends when its holder settles it or
when a recovery pass takes it back. No claim uses a token twice, so the store never holds a message
under a lease that ended, and its former holder is refused.
-/

namespace WorkQueue

namespace Entry

/-- The lease that a claim began. -/
def begun? : Entry → Option Lease
  | ⟨.claim _ token _, .ok found⟩ => found.map fun m => ⟨m.id, token⟩
  | _ => none

/-- The lease that a call ended: it was settled, or taken back. -/
def ended? : Entry → Option Lease
  | ⟨.complete id token, .ok _⟩ => some ⟨id, token⟩
  | ⟨.fail id token _, .ok _⟩ => some ⟨id, token⟩
  | ⟨.reset scanned, .ok true⟩ => scanned.lease?
  | ⟨.poison scanned _, .ok true⟩ => scanned.lease?
  | _ => none

end Entry

/-- The lease was claimed, and not ended since. -/
def Current (log : List Entry) (lease : Lease) : Prop :=
  ∃ earlier e later, log = earlier ++ e :: later ∧ e.begun? = some lease ∧
    ∀ e' ∈ later, e'.ended? ≠ some lease

/-- The lease was claimed, and ended since. -/
def Ended (log : List Entry) (lease : Lease) : Prop :=
  ∃ earlier e later, log = earlier ++ e :: later ∧ e.begun? = some lease ∧
    ∃ e' ∈ later, e'.ended? = some lease

theorem Ended.append {log : List Entry} {lease : Lease} (h : Ended log lease)
    (more : List Entry) : Ended (log ++ more) lease := by
  obtain ⟨earlier, e, later, rfl, hbegun, e', he', hended⟩ := h
  refine ⟨earlier, e, later ++ more, ?_, hbegun, e', List.mem_append_left _ he', hended⟩
  rw [List.append_assoc, List.cons_append]

theorem Current.append {log : List Entry} {lease : Lease} (h : Current log lease) {e : Entry}
    (he : e.ended? ≠ some lease) : Current (log ++ [e]) lease := by
  obtain ⟨earlier, first, later, rfl, hbegun, hlater⟩ := h
  refine ⟨earlier, first, later ++ [e], ?_, hbegun, fun e' he' => ?_⟩
  · rw [List.append_assoc, List.cons_append]
  · rcases List.mem_append.mp he' with he' | he'
    · exact hlater e' he'
    · exact List.mem_singleton.mp he' ▸ he

theorem Current.end {log : List Entry} {lease : Lease} (h : Current log lease) {e : Entry}
    (he : e.ended? = some lease) : Ended (log ++ [e]) lease := by
  obtain ⟨earlier, first, later, rfl, hbegun, -⟩ := h
  refine ⟨earlier, first, later ++ [e], ?_, hbegun, e, ?_, he⟩
  · rw [List.append_assoc, List.cons_append]
  · exact List.mem_append_right _ (List.mem_singleton_self _)

theorem Entry.claimToken?_of_begun? {e : Entry} {lease : Lease} (h : e.begun? = some lease) :
    e.call.claimToken? = some lease.token := by
  obtain ⟨c, r⟩ := e
  cases c with
  | claim =>
      cases r with
      | error e => cases h
      | ok found =>
          obtain ⟨m, -, rfl⟩ := Option.map_eq_some_iff.mp h
          rfl
  | _ => cases h

namespace Message

theorem lease?_eq_some {m : Message} {lease : Lease} :
    m.lease? = some lease ↔
      m.status = .processing ∧ m.ownerToken = some lease.token ∧ m.id = lease.id := by
  unfold lease?
  constructor
  · intro h
    split at h
    · rename_i hheld
      obtain ⟨token, htoken, rfl⟩ := Option.map_eq_some_iff.mp h
      exact ⟨hheld, htoken, rfl⟩
    · cases h
  · rintro ⟨hheld, howned, hid⟩
    rw [hheld, howned, hid]
    rfl

end Message

/-! ## One call -/

theorem Entry.changed?_of_ended? {e : Entry} {lease : Lease} (h : e.ended? = some lease) :
    e.changed? = some lease.id ∨ e.completed? = some lease.id := by
  have scanned {m : Message} (h : m.lease? = some lease) : some m.id = some lease.id :=
    congrArg some (Message.lease?_eq_some.mp h).2.2
  obtain ⟨c, r⟩ := e
  cases c with
  | complete =>
      cases r with
      | error e => cases h
      | ok u =>
          obtain rfl := Option.some.inj h
          exact .inr rfl
  | fail =>
      cases r with
      | error e => cases h
      | ok u =>
          obtain rfl := Option.some.inj h
          exact .inl rfl
  | reset | poison =>
      cases r with
      | error e => cases h
      | ok changed =>
          cases changed with
          | false => cases h
          | true => exact .inl (scanned h)
  | _ => cases h

/-- The errors that a store refuses a lease with. -/
def StoreError.Refuses (id : MessageId) (e : StoreError) : Prop :=
  e = .notOwned id ∨ e = .notFound id

namespace Memory

/-- Some message is held under the lease. -/
def Held (lease : Lease) (s : Memory) : Prop := ∃ m ∈ s.messages, m.lease? = some lease

variable {s : Memory} {lease : Lease}

theorem Released.not_held (h : s.Released lease) : ¬ s.Held lease := by
  rintro ⟨m, hm, hlease⟩
  obtain ⟨-, howned, hid⟩ := Message.lease?_eq_some.mp hlease
  exact h m hm hid howned

theorem Released.find?_none_or (h : s.Released lease) :
    s.find? lease.id = none ∨
      ∃ m, s.find? lease.id = some m ∧ m.isOwnedBy lease.token = false := by
  cases hfind : s.find? lease.id with
  | none => exact .inl rfl
  | some m =>
      obtain ⟨hm, hid⟩ := find?_some hfind
      exact .inr ⟨m, rfl, Bool.eq_false_iff.mpr fun howned =>
        h m hm hid (Message.isOwnedBy_iff.mp howned)⟩

theorem Released.heartbeat (h : s.Released lease) (now : Instant) :
    ∃ e, StoreError.Refuses lease.id e ∧ s.heartbeat lease.id lease.token now = (.error e, s) := by
  unfold Memory.heartbeat
  rcases h.find?_none_or with hnone | ⟨m, hfind, hother⟩
  · rw [hnone]
    exact ⟨_, .inr rfl, rfl⟩
  · rw [hfind]
    by_cases hheld : m.status = .processing
    · simp only [hheld, hother]
      exact ⟨_, .inl rfl, rfl⟩
    · simp only [if_pos (show m.status ≠ .processing from hheld)]
      exact ⟨_, .inr rfl, rfl⟩

theorem Released.fail (h : s.Released lease) (reason : String) :
    ∃ e, StoreError.Refuses lease.id e ∧ s.fail lease.id lease.token reason = (.error e, s) := by
  unfold Memory.fail
  rcases h.find?_none_or with hnone | ⟨m, hfind, hother⟩
  · rw [hnone]
    exact ⟨_, .inr rfl, rfl⟩
  · simp only [hfind, hother, Bool.and_false]
    exact ⟨_, .inl rfl, rfl⟩

/-- Completing a message again is fine, also for those who did not complete it. -/
theorem Released.complete (h : s.Released lease) :
    (∃ e, StoreError.Refuses lease.id e ∧ s.complete lease.id lease.token = (.error e, s)) ∨
      (∃ m, s.find? lease.id = some m ∧ m.status = .complete) ∧
        s.complete lease.id lease.token = (.ok (), s) := by
  unfold Memory.complete
  rcases h.find?_none_or with hnone | ⟨m, hfind, hother⟩
  · rw [hnone]
    exact .inl ⟨_, .inr rfl, rfl⟩
  · cases hterminal : m.status.isTerminal with
    | true =>
        simp only [hfind, hterminal]
        exact .inr ⟨⟨m, rfl, Status.isTerminal_iff.mp hterminal⟩, rfl⟩
    | false =>
        simp only [hfind, hterminal, hother, Bool.and_false]
        exact .inl ⟨_, .inl rfl, rfl⟩

end Memory

section Step

variable {cut : Instant → Instant} {log : List Entry} {s s' : Memory} {c : Call} {r : c.Reply}
  {lease : Lease}

theorem Memory.Sound.lease?_eq (hs : s.Sound log) (hc : c.Admissible log) {scanned m : Message}
    (hscanned : c.snapshot? = some scanned) (hm : m ∈ s.messages) (hid : m.id = scanned.id)
    (hunchanged : m.leaseUnchanged scanned = true) : scanned.lease? = m.lease? := by
  obtain ⟨e, he, hfound⟩ := hc.snapshot_found scanned hscanned
  rw [hs.scanned_eq he hfound hm hid hunchanged]

theorem Effect.held_or_ended (h : Effect cut s c r s') (hs : s.Sound log) (hc : c.Admissible log)
    (hheld : s.Held lease) : s'.Held lease ∨ Entry.ended? ⟨c, r⟩ = some lease := by
  obtain ⟨m, hm, hlease⟩ := hheld
  obtain ⟨hstatus, howned, -⟩ := Message.lease?_eq_some.mp hlease
  rcases h.stays_or_changed hs.distinct hm (hstatus ▸ Status.noConfusion) with
    ⟨hm', -⟩ | ⟨m', hchange, rfl⟩
  · exact .inl ⟨m, hm', hlease⟩
  · have settled {token : Owner} (howner : m.ownerToken = some token) :
        some (Lease.mk m.id token) = some lease :=
      (Message.lease?_eq_some.mpr ⟨hstatus, howner, rfl⟩).symm.trans hlease
    cases hchange with
    | claim hclaimable => cases hstatus.symm.trans (Message.isClaimable_waiting hclaimable)
    | renew => exact .inl ⟨_, Memory.mem_put_self hm rfl, hlease⟩
    | complete _ howner | fail _ howner => exact .inr (settled howner)
    | reset hid hunchanged | poison hid hunchanged =>
        exact .inr ((hs.lease?_eq hc rfl hm hid hunchanged).trans hlease)
    | requeue hrequeue => cases hstatus.symm.trans (Message.requeue?_eq_some hrequeue).1

theorem Effect.held_or_begun (h : Effect cut s c r s') (hheld : s'.Held lease) :
    s.Held lease ∨ Entry.begun? ⟨c, r⟩ = some lease := by
  obtain ⟨m', hm', hlease⟩ := hheld
  obtain ⟨hstatus, howned, hid⟩ := Message.lease?_eq_some.mp hlease
  rcases h.origin hm' with hm | ⟨m, hm, hchange⟩ | ⟨new, id, stamp, -, rfl⟩
  · exact .inl ⟨m', hm, hlease⟩
  · cases hchange with
    | claim =>
        obtain rfl := Option.some.inj howned
        exact .inr (congrArg (fun id => some (Lease.mk id lease.token)) hid)
    | renew => exact .inl ⟨m, hm, hlease⟩
    | complete | fail | reset | poison => cases hstatus
    | requeue hrequeue =>
        obtain ⟨-, -, -, rfl⟩ := Message.requeue?_eq_some hrequeue
        cases hstatus
  · cases hstatus

theorem Effect.begun_held (h : Effect cut s c r s') (hbegun : Entry.begun? ⟨c, r⟩ = some lease) :
    s'.Held lease := by
  cases c with
  | claim =>
      cases r with
      | error e => cases hbegun
      | ok found =>
          obtain ⟨m, rfl, rfl⟩ := Option.map_eq_some_iff.mp hbegun
          obtain ⟨m', hm', hid, hheld, howned, -⟩ := h.claimed
          exact ⟨m', hm', Message.lease?_eq_some.mpr ⟨hheld, howned, hid⟩⟩
  | _ => cases hbegun

theorem Effect.ended (h : Effect cut s c r s') (hs : s.Sound log) (hc : c.Admissible log)
    (hended : Entry.ended? ⟨c, r⟩ = some lease) :
    s'.Released lease ∧
      (s.Held lease ∨ Entry.completed? ⟨c, r⟩ = some lease.id) := by
  have hnone : none ≠ some lease.token := (Option.some_ne_none _).symm
  cases h with
  | kept hmessages _ hchanged _ hcompleted =>
      rcases Entry.changed?_of_ended? hended with h | h
      · cases hchanged.symm.trans h
      · obtain ⟨m, hm, hid, hcomplete⟩ := hcompleted _ h
        refine ⟨fun a ha hsame => ?_, .inr h⟩
        obtain rfl := hs.distinct.eq_of_id (hmessages ▸ ha) hm (hsame.trans hid.symm)
        rw [((hs.coherent a hm).released (hcomplete ▸ Status.noConfusion)).1]
        exact hnone
  | scanned | added | purged => cases hended
  | @changed c r m m' hfind hchange =>
      have hm := (Memory.find?_some hfind).1
      have released (hid : m.id = lease.id) (hkept : m'.id = m.id) (howner : m'.ownerToken = none) :
          (s.put m').Released lease := fun a ha hsame => by
        rcases (Memory.mem_put hm hkept).mp ha with rfl | ⟨-, hne⟩
        · exact howner ▸ hnone
        · exact absurd (hsame.trans hid.symm) hne
      cases hchange with
      | complete hheld howned | fail hheld howned =>
          obtain rfl := Option.some.inj hended
          exact ⟨released rfl rfl rfl,
            .inl ⟨m, hm, Message.lease?_eq_some.mpr ⟨hheld, howned, rfl⟩⟩⟩
      | reset hid hunchanged | poison hid hunchanged =>
          have hlease := (hs.lease?_eq hc rfl hm hid hunchanged).symm.trans hended
          obtain ⟨-, -, hsame⟩ := Message.lease?_eq_some.mp hlease
          exact ⟨released hsame rfl rfl, .inl ⟨m, hm, hlease⟩⟩
      | _ => cases hended

end Step

/-! ## A run -/

section Run

variable {allowed : MonitorConfig → Prop} {cut : Instant → Instant} {readings : List Instant}
  {log : List Entry} {s : Memory} {lease : Lease}

/-- Nothing is held under a lease that ended, whatever was called since. -/
theorem Trace.released (h : Trace allowed cut readings log s) (hended : Ended log lease) :
    s.Released lease := by
  obtain ⟨earlier, first, later, hlog, hbegun, last, hlast, hended⟩ := hended
  induction h generalizing later with
  | start => exact absurd hlog.symm (List.append_ne_nil_of_right_ne_nil _ (List.cons_ne_nil _ _))
  | tick _ _ ih => exact ih later hlog hlast
  | call htrace hfresh hlawful heffect ih =>
      rcases log_cases hlog with ⟨rfl, -, -⟩ | ⟨before, rfl, hbefore⟩
      · cases hlast
      · rcases List.mem_append.mp hlast with hlast | hlast
        · refine ((ih before hbefore hlast).step htrace.sound hfresh ⟨first, ?_, ?_⟩ heffect).1
          · exact hbefore ▸ List.mem_append_right _ List.mem_cons_self
          · exact Entry.claimToken?_of_begun? hbegun
        · obtain rfl := List.mem_singleton.mp hlast
          exact (heffect.ended htrace.sound (hlawful.admissible hfresh) hended).1

/-- The log tells what is held: what was claimed under a lease that did not end since. -/
theorem Trace.held_iff (h : Trace allowed cut readings log s) :
    s.Held lease ↔ Current log lease := by
  induction h with
  | start =>
      refine ⟨fun ⟨m, hm, _⟩ => ?_, fun ⟨_, _, _, hlog, _⟩ => ?_⟩
      · cases hm
      · exact absurd hlog.symm (List.append_ne_nil_of_right_ne_nil _ (List.cons_ne_nil _ _))
  | tick _ _ ih => exact ih
  | @call readings log s s' c r htrace hfresh hlawful heffect ih =>
      have hadmissible := hlawful.admissible hfresh
      constructor
      · intro hheld
        rcases heffect.held_or_begun hheld with hold | hbegun
        · refine (ih.mp hold).append fun hended => ?_
          exact (heffect.ended htrace.sound hadmissible hended).1.not_held hheld
        · exact ⟨log, _, [], rfl, hbegun, fun e he => by cases he⟩
      · rintro ⟨earlier, first, later, hlog, hbegun, hlater⟩
        rcases log_cases hlog with ⟨rfl, -, rfl⟩ | ⟨before, rfl, hbefore⟩
        · exact heffect.begun_held hbegun
        · have hcurrent : Current log lease := ⟨earlier, first, before, hbefore, hbegun,
            fun e he => hlater e (List.mem_append_left _ he)⟩
          refine (heffect.held_or_ended htrace.sound hadmissible (ih.mpr hcurrent)).resolve_right ?_
          exact hlater _ (List.mem_append_right _ (List.mem_singleton_self _))

theorem Trace.not_current (h : Trace allowed cut readings log s) (hended : Ended log lease) :
    ¬ Current log lease := fun hcurrent =>
  (h.released hended).not_held (h.held_iff.mpr hcurrent)

end Run

/-- The caller of a coordinator is told that its lease is gone. -/
def QueueError.Refuses (id : MessageId) (e : QueueError) : Prop :=
  e = .notOwned id ∨ e = .store (.notFound id)

theorem Coordinator.settled_refused {id : MessageId} {e : StoreError}
    (h : StoreError.Refuses id e) :
    ∃ e', QueueError.Refuses id e' ∧ settled (.error e) = .error e' := by
  rcases h with rfl | rfl
  · exact ⟨_, .inl rfl, rfl⟩
  · exact ⟨_, .inr rfl, rfl⟩

namespace World

variable {allowed : MonitorConfig → Prop} {cut : Instant → Instant} {w w' w₁ w₂ w₃ : World}
  {s : Memory} {lease : Lease} {m : Message}

/-- The holder of the lease is refused, and the store stays as it is. -/
structure Inert (w : World) (lease : Lease) : Prop where
  renew : ∀ now registry, (Coordinator.renew lease now).run Backend.answer w.store registry =
    ((.ok .lost, w.store, registry) : _ × _ × Registry)
  fail : ∀ reason registry, ∃ e, QueueError.Refuses lease.id e ∧
    (Coordinator.fail lease reason).run Backend.answer w.store registry =
      ((.error e, w.store, registry) : _ × _ × Registry)
  commit : ∀ registry,
    (∃ e, QueueError.Refuses lease.id e ∧
      (Coordinator.commit lease).run Backend.answer w.store registry =
        ((.error e, w.store, registry) : _ × _ × Registry)) ∨
    (∃ m, w.store.Shows m ∧ m.id = lease.id ∧ m.status = .complete) ∧
      (Coordinator.commit lease).run Backend.answer w.store registry =
        ((.ok (), w.store, registry) : _ × _ × Registry)

/-- A call moves the message, which was processing, to another status, and it settles the lease. -/
structure Settles (w w' : World) (lease : Lease) (m : Message) : Prop where
  called : ∃ e : Entry, w'.log = w.log ++ [e] ∧ e.call.settled? = some lease
  shown : w.store.Shows m
  held : m.status = .processing
  left : ∀ m', w'.store.Shows m' → m'.id = m.id → m'.status ≠ .processing

/-- The message becomes complete. -/
structure Completes (w w' : World) (id : MessageId) : Prop where
  before : ∀ m, w.store.Shows m → m.id = id → m.status ≠ .complete
  after : ∃ m, w'.store.Shows m ∧ m.id = id ∧ m.status = .complete

theorem leased_iff (h : Traced allowed cut w.store w.readings w.log s) :
    w.Leased lease ↔ s.Held lease := by
  rw [Leased, h.get]
  constructor
  · rintro ⟨m, hfind, hheld, howned⟩
    obtain ⟨hm, hid⟩ := Memory.find?_some (Except.ok.inj hfind)
    exact ⟨m, hm, Message.lease?_eq_some.mpr ⟨hheld, howned, hid⟩⟩
  · rintro ⟨m, hm, hlease⟩
    obtain ⟨hheld, howned, hid⟩ := Message.lease?_eq_some.mp hlease
    exact ⟨m, by rw [← hid, h.trace.sound.distinct.find?_of_mem hm], hheld, howned⟩

theorem inert_of_released (h : Traced allowed cut w.store w.readings w.log s)
    (hreleased : s.Released lease) : w.Inert lease := by
  have hd := h.trace.sound.distinct
  constructor
  · intro now registry
    obtain ⟨e, hrefused, hreply⟩ := hreleased.heartbeat (cut now)
    have hanswer := h.answer_same (c := .heartbeat lease.id lease.token now)
      (fun t hr => t.heartbeat_agrees hd hr.stored _ _ _) hreply
    rw [Coordinator.renew, Procedure.run_ask_bind hanswer]
    rcases hrefused with rfl | rfl <;> rfl
  · intro reason registry
    obtain ⟨e, hrefused, hreply⟩ := hreleased.fail reason
    have hanswer := h.answer_same (c := .fail lease.id lease.token reason)
      (fun t hr => t.fail_agrees hd hr.stored _ _ _) hreply
    obtain ⟨e', hrefused', hsettled⟩ := Coordinator.settled_refused hrefused
    refine ⟨e', hrefused', ?_⟩
    rw [Coordinator.fail, Procedure.run_ask_bind hanswer, hsettled]
    rfl
  · intro registry
    have hanswer {r : Except StoreError Unit}
        (hreply : s.complete lease.id lease.token = (r, s)) :
        w.store.answer (.complete lease.id lease.token) = (r, w.store) :=
      h.answer_same (fun t hr => t.complete_agrees hd hr.stored _ _) hreply
    rcases hreleased.complete with ⟨e, hrefused, hreply⟩ | ⟨⟨m, hfind, hcomplete⟩, hreply⟩
    · obtain ⟨e', hrefused', hsettled⟩ := Coordinator.settled_refused hrefused
      refine .inl ⟨e', hrefused', ?_⟩
      rw [Coordinator.commit, Procedure.run_ask_bind (hanswer hreply), hsettled]
      rfl
    · obtain ⟨hm, hid⟩ := Memory.find?_some hfind
      refine .inr ⟨⟨m, h.shows_iff.mpr hm, hid, hcomplete⟩, ?_⟩
      rw [Coordinator.commit, Procedure.run_ask_bind (hanswer hreply)]
      rfl

/-! ## Steps that settle a lease -/

/-- A message that a settling call moves out of processing is held under the settled lease, which
ends. -/
theorem Settles.current (hw : w.Reachable allowed) (hstep : Step allowed w w') (hdated : w'.Dated)
    (h : w.Settles w' lease m) :
    m.lease? = some lease ∧ Current w.log lease ∧ Ended w'.log lease := by
  obtain ⟨e, hlog, hsettled⟩ := h.called
  obtain ⟨cut, s, s', htraced, htraced', hsame | ⟨c, r, hcalled, hadmissible, heffect⟩⟩ :=
    hw.step_traced hstep hdated
  · exact absurd (hlog.symm.trans hsame.1) (by simp)
  · obtain rfl : e = ⟨c, r⟩ := by simpa using hlog.symm.trans hcalled
    have hm := htraced.shows_iff.mp h.shown
    rcases heffect.stays_or_changed htraced.trace.sound.distinct hm
        (h.held ▸ Status.noConfusion) with ⟨hm', -⟩ | ⟨m', hchange, -⟩
    · exact absurd h.held (h.left m (htraced'.shows_iff.mpr hm') rfl)
    · have hlease : m.lease? = some lease ∧ Entry.ended? ⟨c, r⟩ = some lease := by
        cases hchange with
        | complete _ howned | fail _ howned =>
            obtain rfl := Option.some.inj hsettled
            exact ⟨Message.lease?_eq_some.mpr ⟨h.held, howned, rfl⟩, rfl⟩
        | _ => cases hsettled
      have hcurrent := htraced.trace.held_iff.mp ⟨m, hm, hlease.1⟩
      exact ⟨hlease.1, hcurrent, hlog ▸ hcurrent.end hlease.2⟩

theorem Reachable.complete_stays (hw : w.Reachable allowed) (hstep : Step allowed w w')
    (hdated : w'.Dated) (hcomplete : m.status = .complete) (hm : w.store.Shows m) :
    w'.store.Shows m := by
  obtain ⟨cut, s, s', htraced, htraced', ⟨-, rfl⟩ | ⟨c, r, -, -, heffect⟩⟩ :=
    hw.step_traced hstep hdated
  · exact htraced'.shows_iff.mpr (htraced.shows_iff.mp hm)
  · rw [htraced.shows_iff] at hm
    rcases heffect.stays_or_changed htraced.trace.sound.distinct hm
        (hcomplete ▸ Status.noConfusion) with ⟨hm', -⟩ | ⟨m', hchange, -⟩
    · exact htraced'.shows_iff.mpr hm'
    · rcases hchange.unconsumed_or_error with (h | h) | h <;> cases hcomplete.symm.trans h

/-- What a run keeps of a world that it comes from. -/
structure Since (w w' : World) : Prop where
  log : ∃ more, w'.log = w.log ++ more
  complete : ∀ m, m.status = .complete → w.store.Shows m → w'.store.Shows m

theorem Reachable.since (hw : w.Reachable allowed)
    (h : Relation.ReflTransGen (Step allowed) w w') (hdated : w'.Dated) :
    w'.Reachable allowed ∧ w.Since w' := by
  induction h with
  | refl => exact ⟨hw, ⟨[], (List.append_nil _).symm⟩, fun _ _ hm => hm⟩
  | tail _ hstep ih =>
      obtain ⟨hw', ⟨more, hlog⟩, hcomplete⟩ := ih (hstep.dated hdated)
      refine ⟨hw'.step hstep, ?_, fun m hm hshown =>
        hw'.complete_stays hstep hdated hm (hcomplete m hm hshown)⟩
      cases hstep with
      | call => exact ⟨_, by rw [hlog, List.append_assoc]⟩
      | _ => exact ⟨more, hlog⟩

/-- A lease that ended is inert in every later state, and the leases that did not end are those that
messages are held under. So a message leaves processing by a commit or a failure only under the
lease that it is held under, and every lease settles once and every message is completed once at
most. -/
theorem stale_leases_inert (hw : w.Reachable allowed) (hdated : w.Dated) :
    (∀ lease, Ended w.log lease → w.Inert lease) ∧
    (∀ lease, w.Leased lease ↔ Current w.log lease) ∧
    ∀ w₁, Step allowed w w₁ → w₁.Dated →
      (∀ lease m, w.Settles w₁ lease m → m.lease? = some lease ∧ w.Leased lease) ∧
      ∀ w₂ w₃, Relation.ReflTransGen (Step allowed) w₁ w₂ → Step allowed w₂ w₃ → w₃.Dated →
        (∀ lease m m', w.Settles w₁ lease m → ¬ w₂.Settles w₃ lease m') ∧
        ∀ id, w.Completes w₁ id → ¬ w₂.Completes w₃ id := by
  obtain ⟨⟨cut, s, htraced⟩, -⟩ := hw.trace hdated
  have hleased (lease : Lease) : w.Leased lease ↔ Current w.log lease :=
    (leased_iff htraced).trans htraced.trace.held_iff
  refine ⟨fun lease hended => inert_of_released htraced (htraced.trace.released hended), hleased,
    ?_⟩
  intro w₁ hstep hdated₁
  refine ⟨fun lease m hsettles => ?_, fun w₂ w₃ hsteps hlast hdated₃ => ?_⟩
  · obtain ⟨hlease, hcurrent, -⟩ := hsettles.current hw hstep hdated₁
    exact ⟨hlease, (hleased lease).mpr hcurrent⟩
  · have hdated₂ := hlast.dated hdated₃
    obtain ⟨hw₂, hsince⟩ := (hw.step hstep).since hsteps hdated₂
    refine ⟨fun lease m m' hsettles hagain => ?_, fun id hcompletes hagain => ?_⟩
    · obtain ⟨-, -, hended⟩ := hsettles.current hw hstep hdated₁
      obtain ⟨-, hcurrent, -⟩ := hagain.current hw₂ hlast hdated₃
      obtain ⟨⟨cut, s, htraced₂⟩, -⟩ := hw₂.trace hdated₂
      obtain ⟨more, hlog⟩ := hsince.log
      exact htraced₂.trace.not_current (hlog ▸ hended.append more) hcurrent
    · obtain ⟨m, hm, hid, hcomplete⟩ := hcompletes.after
      exact hagain.before m (hsince.complete m hcomplete hm) hid hcomplete

/-- A message that was failed, requeued and claimed again is held under the second lease only. -/
theorem stale_leases_inert_reclaimed :
    ∃ w : World, w.Inert ⟨⟨.ofNat 1⟩, ⟨"a"⟩⟩ ∧ w.Leased ⟨⟨.ofNat 1⟩, ⟨"b"⟩⟩ := by
  let id : MessageId := ⟨.ofNat 1⟩
  have hstart : Reachable (fun _ => True) _ := .memory .epoch
  have hinserted := (hstart.step (@Step.begin _ _ (.call (.insert { payload := [1] } id .epoch))
    ⟨rfl, rfl⟩)).step (@Step.call _ _ [] [] _ _ rfl (by decide))
  have hclaimed := (hinserted.step (@Step.begin _ _ (.claim ⟨"a"⟩ []) trivial)).step
    (@Step.call _ _ [] _ _ _ rfl (by decide))
  have hfailed := (hclaimed.step (@Step.begin _ _ (.fail ⟨id, ⟨"a"⟩⟩ "reason") trivial)).step
    (@Step.call _ _ [] _ _ _ rfl (by decide))
  have hrequeued := (hfailed.step (@Step.begin _ _ (.requeue id) trivial)).step
    (@Step.call _ _ [] _ _ _ rfl (by decide))
  have hagain := (hrequeued.step (@Step.begin _ _ (.claim ⟨"b"⟩ []) trivial)).step
    (@Step.call _ _ [] _ _ _ rfl (by decide))
  obtain ⟨hinert, hleased, -⟩ := stale_leases_inert hagain fun e he t ht => by cases ht
  refine ⟨_, hinert _ ?_, (hleased _).mpr ?_⟩
  · exact ⟨[_], _, [_, _, _], rfl, rfl, _, List.mem_cons_self, rfl⟩
  · exact ⟨[_, _, _, _], _, [], rfl, rfl, fun e he => by cases he⟩

end World

end WorkQueue
