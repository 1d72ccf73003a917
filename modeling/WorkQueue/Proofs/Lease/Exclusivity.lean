import Mathlib
import WorkQueue.Proofs.Instant.Elapsed
import WorkQueue.Proofs.Lease.Run

/-! # Exclusive leases

A message that was claimed stays with its lease as long as the lease was renewed recently and its
holder has not settled it. A recovery pass decides on what its scan found, which may be outdated
when it takes the lease back; but it takes it back only if the lease is as it was, and then the last
renewal was too old already when the pass read the clock.
-/

namespace WorkQueue

/-- The lease that a call settles, or tries to settle. -/
def Call.settled? : Call → Option Lease
  | complete id token => some ⟨id, token⟩
  | fail id token _ => some ⟨id, token⟩
  | _ => none

namespace Entry

/-- The reading of the clock at which a lease was renewed. -/
def renewedAt? (lease : Lease) : Entry → Option Instant
  | ⟨.heartbeat id token now, .ok _⟩ =>
      if id = lease.id ∧ token = lease.token then some now else none
  | _ => none

theorem renewedAt?_eq_some {lease : Lease} {c : Call} {r : c.Reply} {now : Instant}
    (h : renewedAt? lease ⟨c, r⟩ = some now) :
    c = .heartbeat lease.id lease.token now ∧ changed? ⟨c, r⟩ = some lease.id := by
  cases c with
  | heartbeat id token t =>
      cases r with
      | error e => cases h
      | ok u =>
          simp only [renewedAt?] at h
          split at h
          · rename_i hsame
            obtain ⟨rfl, rfl⟩ := hsame
            obtain rfl := Option.some.inj h
            exact ⟨rfl, rfl⟩
          · cases h
  | _ => cases h

end Entry

/-- The last renewal of a lease that was claimed before the entries. -/
def lastBeat (lease : Lease) (claimed : Instant) (later : List Entry) : Instant :=
  later.foldl (fun beat e => (e.renewedAt? lease).getD beat) claimed

theorem lastBeat_append (lease : Lease) (claimed : Instant) (later : List Entry) (e : Entry) :
    lastBeat lease claimed (later ++ [e]) =
      (e.renewedAt? lease).getD (lastBeat lease claimed later) := by
  rw [lastBeat, List.foldl_append]
  rfl

namespace Memory

/-- The message is held under the lease, last renewed at a time. -/
def Leased (cut : Instant → Instant) (lease : Lease) (beat : Instant) (s : Memory) : Prop :=
  ∃ m ∈ s.messages, m.id = lease.id ∧ m.status = .processing ∧
    m.ownerToken = some lease.token ∧ m.lastHeartbeat = some (cut beat)

/-- The message is not held under the lease. -/
def Released (lease : Lease) (s : Memory) : Prop :=
  ∀ m ∈ s.messages, m.id = lease.id → m.ownerToken ≠ some lease.token

end Memory

/-! ## One call -/

section Step

variable {allowed : MonitorConfig → Prop} {cut : Instant → Instant} {readings : List Instant}
  {log : List Entry} {s s' : Memory} {c : Call} {r : c.Reply} {lease : Lease} {beat : Instant}

theorem Effect.claimed {routes : List String} {token : Owner} {now : Instant} {m : Message}
    (h : Effect cut s (.claim routes token now) (.ok (some m)) s') :
    s'.Leased cut ⟨m.id, token⟩ now := by
  cases h with
  | kept _ _ hchanged => cases hchanged
  | changed hfind hchange =>
      have hold := (Memory.find?_some hfind).1
      cases hchange with
      | claim => exact ⟨_, Memory.mem_put_self hold rfl, rfl, rfl, rfl, rfl⟩

theorem renewedAt?_eq_none (h : Entry.changed? ⟨c, r⟩ ≠ some lease.id) :
    Entry.renewedAt? lease ⟨c, r⟩ = none := by
  cases hrenewed : Entry.renewedAt? lease ⟨c, r⟩ with
  | none => rfl
  | some now => exact absurd (Entry.renewedAt?_eq_some hrenewed).2 h

theorem Memory.Leased.step (h : s.Leased cut lease beat) (hd : s.Distinct)
    (heffect : Effect cut s c r s') (hunsettled : c.settled? ≠ some lease) :
    s'.Leased cut lease ((Entry.renewedAt? lease ⟨c, r⟩).getD beat) ∨
      s'.Released lease ∧
        ∃ scanned, c.snapshot? = some scanned ∧ scanned.lastHeartbeat = some (cut beat) := by
  obtain ⟨m, hm, hid, hheld, howned, hbeat⟩ := h
  rcases heffect.stays_or_changed hd hm (hheld ▸ Status.noConfusion) with
    ⟨hm', hother⟩ | ⟨m', hchange, rfl⟩
  · rw [renewedAt?_eq_none (hid ▸ hother)]
    exact .inl ⟨m, hm', hid, hheld, howned, hbeat⟩
  · -- a message whose lease is taken back is not owned any more
    have hreleased {m' : Message} (hm' : m'.id = m.id) (howner : m'.ownerToken = none) :
        (s.put m').Released lease := fun a ha ha' => by
      rcases (mem_put hm hm').mp ha with rfl | ⟨-, hne⟩
      · exact howner ▸ (Option.some_ne_none _).symm
      · exact absurd (ha'.trans hid.symm) hne
    cases hchange with
    | claim hclaimable => cases hheld.symm.trans (Message.isClaimable_waiting hclaimable)
    | @renew _ token now _ howner =>
        obtain rfl := Option.some.inj (howner.symm.trans howned)
        have hrenewed : Entry.renewedAt? lease ⟨.heartbeat m.id lease.token now, .ok ()⟩ =
            some now := if_pos ⟨hid, rfl⟩
        rw [hrenewed]
        exact .inl ⟨m.renew (cut now), mem_put_self hm rfl, hid, hheld, howned, rfl⟩
    | complete _ howner | fail _ howner =>
        obtain rfl := Option.some.inj (howner.symm.trans howned)
        exact absurd (congrArg (fun id => some (Lease.mk id lease.token)) hid) hunsettled
    | reset _ hunchanged | poison _ hunchanged =>
        have hsnapshot := (Message.leaseUnchanged_iff.mp hunchanged).2.2
        exact .inr ⟨hreleased rfl rfl, _, rfl, hsnapshot.symm.trans hbeat⟩
    | requeue hrequeue => cases hheld.symm.trans (Message.requeue?_eq_some hrequeue).1

theorem Memory.Released.step (h : s.Released lease) (hs : s.Sound log) (hfresh : c.Fresh log)
    (hused : ∃ e ∈ log, e.call.claimToken? = some lease.token) (heffect : Effect cut s c r s') :
    s'.Released lease ∧ Entry.renewedAt? lease ⟨c, r⟩ = none := by
  constructor
  · intro m' hm' hid howner
    rcases heffect.origin hm' with hm | ⟨m, hm, hchange⟩ | ⟨new, id, stamp, -, rfl⟩
    · exact h m' hm hid howner
    · rcases hchange.owner (hs.coherent m hm) howner with hclaim | ⟨howned, -⟩
      · obtain ⟨e, he, htoken⟩ := hused
        exact hfresh.token_fresh _ hclaim e he htoken
      · exact h m hm (hchange.keeps.id.symm.trans hid) howned
    · cases howner
  · cases hrenewed : Entry.renewedAt? lease ⟨c, r⟩ with
    | none => rfl
    | some now =>
        obtain ⟨hcall, hchanged⟩ := Entry.renewedAt?_eq_some hrenewed
        cases heffect with
        | kept _ _ hnone => cases hnone.symm.trans hchanged
        | scanned | added | purged => cases hcall
        | changed hfind hchange =>
            cases hchange with
            | renew _ howned =>
                obtain ⟨hid, rfl, -⟩ := Call.heartbeat.inj hcall
                exact absurd howned (h _ (find?_some hfind).1 hid)
            | _ => cases hcall

end Step

/-! ## A run -/

section Run

variable {allowed : MonitorConfig → Prop} {cut : Instant → Instant} {readings : List Instant}
  {log : List Entry} {s : Memory} {threshold : Duration} {leaps : List Int}

/-- A lease that is taken back was last renewed longer ago than the threshold when the recovery pass
read the clock. -/
theorem Trace.overdue (h : Trace allowed cut readings log s)
    (hcut : ∀ x y, cut x < cut y → x < y)
    (hallowed : ∀ config, allowed config → config.threshold = threshold) {c : Call}
    (hlawful : c.Lawful allowed readings log) {scanned : Message}
    (hscanned : c.snapshot? = some scanned) {beat : Instant} (hshown : beat.Shown leaps)
    (hbeat : scanned.lastHeartbeat = some (cut beat)) :
    ∃ now ∈ readings, threshold.toNanos < Instant.elapsed leaps beat now := by
  obtain ⟨config, hallow, now, hnow, span, cutoff, hspan, hcutoff, e, he, hscan, hfound⟩ :=
    hlawful.scanned hscanned
  have hexpired := h.leaseExpired e he cutoff hscan scanned hfound
  simp only [Message.leaseExpired, hbeat, Option.all_some, Bool.and_eq_true,
    decide_eq_true_eq] at hexpired
  rw [hallowed config hallow] at hspan
  have hnanos := Instant.ofDuration?_nanos hspan
  have hlt := Instant.lt_elapsed (by omega) hcutoff hshown (hcut _ _ hexpired.2)
  exact ⟨now, hnow, by omega⟩

/-- A claimed lease that nobody settled is held as of its last renewal, or it was taken back
overdue. -/
theorem Trace.leased_or_overdue (h : Trace allowed cut readings log s)
    (hcut : ∀ x y, cut x < cut y → x < y)
    (hallowed : ∀ config, allowed config → config.threshold = threshold)
    (hleaps : ∀ t ∈ readings, t.Shown leaps) {earlier later : List Entry} {routes : List String}
    {token : Owner} {claimed : Instant} {m : Message}
    (hlog : log = earlier ++ ⟨.claim routes token claimed, .ok (some m)⟩ :: later)
    (hunsettled : ∀ e ∈ later, e.call.settled? ≠ some ⟨m.id, token⟩) :
    lastBeat ⟨m.id, token⟩ claimed later ∈ readings ∧
      (s.Leased cut ⟨m.id, token⟩ (lastBeat ⟨m.id, token⟩ claimed later) ∧
          (∀ e ∈ later, ∀ m' ∈ e.handed?, m'.id ≠ m.id) ∨
        s.Released ⟨m.id, token⟩ ∧ ∃ now ∈ readings, threshold.toNanos <
          Instant.elapsed leaps (lastBeat ⟨m.id, token⟩ claimed later) now) := by
  induction h generalizing earlier later with
  | start => exact absurd hlog.symm (List.append_ne_nil_of_right_ne_nil _ (List.cons_ne_nil _ _))
  | tick now _ ih =>
      obtain ⟨hbeat, hstate⟩ :=
        ih (fun t ht => hleaps t (List.mem_cons_of_mem now ht)) hlog hunsettled
      refine ⟨List.mem_cons_of_mem now hbeat, hstate.imp_right fun ⟨hreleased, t, ht, hlate⟩ => ?_⟩
      exact ⟨hreleased, t, List.mem_cons_of_mem now ht, hlate⟩
  | @call readings log s s' c r htrace hfresh hlawful heffect ih =>
      have hreading {now : Instant} (h : c.reading? = some now) : now ∈ readings := by
        cases hlawful with
        | plain _ hreading => exact hreading now h
        | reset | poison => cases h
      rcases log_cases hlog with ⟨rfl, -, hlast⟩ | ⟨before, rfl, hbefore⟩
      · obtain ⟨rfl, hr⟩ := Entry.mk.inj hlast
        obtain rfl := eq_of_heq hr
        exact ⟨hreading rfl, .inl ⟨heffect.claimed, fun e he => by cases he⟩⟩
      · obtain ⟨hbeat, hstate⟩ := ih hleaps hbefore fun e he =>
          hunsettled e (List.mem_append_left _ he)
        have hlast := hunsettled ⟨c, r⟩ (List.mem_append_right _ (List.mem_singleton_self _))
        rw [lastBeat_append]
        refine ⟨?_, ?_⟩
        · cases hrenewed : Entry.renewedAt? ⟨m.id, token⟩ ⟨c, r⟩ with
          | none => exact hbeat
          | some now =>
              obtain ⟨rfl, -⟩ := Entry.renewedAt?_eq_some hrenewed
              exact hreading rfl
        · rcases hstate with ⟨hleased, hothers⟩ | ⟨hreleased, hlate⟩
          · rcases hleased.step htrace.sound.distinct heffect hlast with
              hleased' | ⟨hreleased, scanned, hscanned, hheart⟩
            · refine .inl ⟨hleased', fun e he m' hm' hsame => ?_⟩
              rcases List.mem_append.mp he with he | he
              · exact hothers e he m' hm' hsame
              · obtain rfl := List.mem_singleton.mp he
                -- a message that is handed out was waiting, and this one was held
                obtain ⟨old, hold, hid, hwaiting⟩ := heffect.handed_waiting hm'
                obtain ⟨a, ha, haid, hheld, -⟩ := hleased
                obtain rfl := htrace.sound.distinct.eq_of_id hold ha
                  ((hid.trans hsame).trans haid.symm)
                cases hwaiting.symm.trans hheld
            · have hquiet : Entry.renewedAt? ⟨m.id, token⟩ ⟨c, r⟩ = none := by
                cases c with
                | heartbeat => cases hscanned
                | _ => rfl
              rw [hquiet]
              exact .inr ⟨hreleased, htrace.overdue hcut hallowed hlawful hscanned
                (hleaps _ hbeat) hheart⟩
          · have hused : ∃ e ∈ log, e.call.claimToken? = some token :=
              ⟨_, hbefore ▸ List.mem_append_right _ List.mem_cons_self, rfl⟩
            obtain ⟨hreleased', hquiet⟩ :=
              hreleased.step htrace.sound hfresh hused heffect
            rw [hquiet]
            exact .inr ⟨hreleased', hlate⟩

end Run

namespace World

/-- The store shows the message as held under the lease. -/
def Leased (w : World) (lease : Lease) : Prop :=
  ∃ m, (w.store.answer (.get lease.id)).1 = .ok (some m) ∧ m.status = .processing ∧
    m.ownerToken = some lease.token

variable {w : World}

/-- A lease that nobody settled is exclusive while its last renewal is not longer ago than the
threshold of the monitors, on a clock that never goes back: the message is held under the lease,
every renewal succeeds, and no later claim handed the message out. -/
theorem lease_exclusive {threshold : Duration} {leaps : List Int}
    (hw : w.Reachable (·.threshold = threshold)) (hdated : w.Dated)
    (hclock : w.readings.Pairwise (· ≥ ·)) (hleaps : ∀ t ∈ w.readings, t.Shown leaps)
    {earlier later : List Entry} {routes : List String} {token : Owner} {claimed : Instant}
    {m : Message}
    (hlog : w.log = earlier ++ ⟨.claim routes token claimed, .ok (some m)⟩ :: later)
    (hunsettled : ∀ e ∈ later, e.call.settled? ≠ some ⟨m.id, token⟩) :
    let lease : Lease := ⟨m.id, token⟩
    let age := Instant.elapsed leaps (lastBeat lease claimed later) w.clock
    (age ≤ threshold.toNanos →
      w.Leased lease ∧
        (∀ (registry : Registry) (now : Instant),
          ((Coordinator.renew lease now).run Backend.answer w.store registry).1 = .ok .renewed) ∧
        ∀ e ∈ later, ∀ m' ∈ e.handed?, m'.id ≠ m.id) ∧
      ((∃ e ∈ later, ∃ m' ∈ e.handed?, m'.id = m.id) → threshold.toNanos < age) := by
  intro lease age
  obtain ⟨⟨cut, s, hholds, hkeeps, htrace⟩, -⟩ := hw.trace hdated
  obtain ⟨hbeat, hstate⟩ := htrace.leased_or_overdue (fun _ _ => hholds.lt_of_cut)
    (fun _ h => h) hleaps hlog hunsettled
  have hlate (h : ∃ now ∈ w.readings, threshold.toNanos <
      Instant.elapsed leaps (lastBeat lease claimed later) now) : threshold.toNanos < age := by
    obtain ⟨now, hnow, hlt⟩ := h
    have hle : now ≤ w.clock := by
      rcases List.mem_cons.mp hnow with rfl | hpast
      · exact le_refl _
      · exact (List.pairwise_cons.mp hclock).1 now hpast
    exact hlt.trans_le (Instant.elapsed_le (hleaps now hnow) hle)
  refine ⟨fun hage => ?_, fun ⟨e, he, m', hm', hid⟩ => ?_⟩
  · rcases hstate with ⟨⟨a, ha, hid, hheld, howned, -⟩, hothers⟩ | ⟨-, hover⟩
    · have hfind := htrace.sound.distinct.find?_of_mem ha
      refine ⟨⟨a, ?_, hheld, howned⟩, fun registry now => ?_, hothers⟩
      · rw [hholds.get hkeeps, ← hid, hfind]
      · have hreply := hholds.heartbeat htrace.sound hkeeps hfind hheld howned now
        rw [hid] at hreply
        simp only [Coordinator.renew, Procedure.run_bind, Procedure.ask, Procedure.run]
        rw [hreply]
        rfl
    · exact absurd (hlate hover) (not_lt.mpr hage)
  · rcases hstate with ⟨-, hothers⟩ | ⟨-, hover⟩
    · exact absurd hid (hothers e he m' hm')
    · exact hlate hover

/-- Half a second after a claim, a threshold of one second has not passed. -/
theorem lease_exclusive_half_second :
    ∃ w : World, w.clock = ⟨0, 500000000, by decide⟩ ∧ w.Leased ⟨⟨.ofNat 1⟩, ⟨"a"⟩⟩ := by
  let insert : Call := .insert { payload := [1] } ⟨.ofNat 1⟩ .epoch
  let claim : Call := .claim [] ⟨"a"⟩ .epoch
  have hstart : Reachable (·.threshold = ⟨1, 0, by decide⟩) _ := .memory .epoch
  have hinserted := (hstart.step (@Step.begin _ _ (.call insert) ⟨rfl, rfl⟩)).step
    (@Step.call _ _ [] [] insert _ rfl (by decide))
  have hclaimed := (hinserted.step (@Step.begin _ _ (.claim ⟨"a"⟩ []) trivial)).step
    (@Step.call _ _ [] _ claim _ rfl (by decide))
  have hticked := hclaimed.step (@Step.tick _ _ ⟨0, 500000000, by decide⟩)
  refine ⟨_, rfl, ((@lease_exclusive _ _ [] hticked ?_ ?_ ?_ [⟨insert, .ok ⟨.ofNat 1⟩⟩] [] _ _
    .epoch _ rfl ?_).1 ?_).1⟩
  · exact fun e he t ht => by cases ht
  · decide
  · decide
  · exact fun e he => by cases he
  · decide

end World

end WorkQueue
