import Mathlib
import WorkQueue.Proofs.Worker.Crew

/-! # Cancelled handlers

The signal of a handler is fired by a round that finds its lease lost. That happens only to a lease
that was taken back, and it happens to every one that is still registered when the round gets there.
From then on the worker changes nothing, even if its handler ends and the worker goes on to settle.
-/

namespace WorkQueue

open Relation (ReflTransGen)

namespace Round

/-- What a round did about a lease. It renewed the lease at one of its readings of the clock. If the
lease was granted, it is renewed then; if it was taken back, the round cancelled it next and fired
its signal, unless it was released meanwhile. -/
def Attends (round : Round) (history : List Moment) (lease : Lease) : Prop :=
  ∃ earlier later past store, ∃ now ∈ round.readings,
    round.deeds = earlier ++ .called past (renewal store lease now) :: later ∧
    past ++ [renewal store lease now] <+: history ∧
    (store.Grants lease → (renewal store lease now).entry.reply = .ok () ∧
      (renewal store lease now).after.Renewed lease now) ∧
    ((∃ x ∈ past, x.TakesBack lease) → ∃ before more,
      later = .updated before (before.cancel lease) :: more ∧
      ∀ signal, before.signal? lease = some signal → signal ∈ round.fired)

variable {store : Backend} {history : List Moment} {deeds : List Deed} {readings : List Instant}
  {lease : Lease}

/-- A round that is done renewed every lease of its snapshot, and counted the signals it fired. -/
theorem Progress.done {count : Nat} (h : Progress store history readings (.done count) deeds) :
    ∃ snapshot later, deeds = .updated snapshot snapshot :: later ∧
      count = (signals deeds).length ∧ ∀ lease ∈ snapshot.leases, Visited lease later := by
  have hrenewing : Progress store history readings (Monitor.renewEach .epoch [] count) deeds := h
  obtain ⟨snapshot, later, rfl, hcount, -, -, all⟩ := hrenewing.renewing
  refine ⟨snapshot, later, rfl, ?_, ?_⟩
  · rw [signals_cons, Deed.fired_read, List.nil_append]
    exact hcount
  · intro lease hlease
    exact (all lease hlease).resolve_left List.not_mem_nil

theorem Visited.attends {round : Round} {d : Deed} (h : Visited lease deeds)
    (hdeeds : round.deeds = d :: deeds)
    (htold : ∀ d ∈ round.deeds, d.Told history round.readings) (hfaultless : round.Faultless) :
    round.Attends history lease := by
  have hmem {e : Deed} (he : e ∈ deeds) : e ∈ round.deeds := by
    rw [hdeeds]
    exact List.mem_cons_of_mem _ he
  cases h with
  | failed made => exact (hfaultless _ (hmem made) trivial).elim
  | @called earlier later past store now made refused =>
      have hcalled : .called past (renewal store lease now) ∈ round.deeds := by
        apply hmem
        rw [made]
        exact List.mem_append_right _ List.mem_cons_self
      obtain ⟨hrecorded, hprefix, hread⟩ := htold _ hcalled
      refine ⟨d :: earlier, later, past, store, now, hread now rfl, ?_, hprefix, ?_, ?_⟩
      · rw [hdeeds, made]
        rfl
      · intro hgranted
        exact (hrecorded.booked.granted hgranted).2 now
      · rintro ⟨x, hx, hends, -⟩
        have hlost := hrecorded.ended x hx lease hends
        obtain ⟨e, hreply⟩ := hrecorded.renewal_refused hlost now
        have hconflict : e.isConflict = true := by
          by_contra hfault
          exact hfaultless _ hcalled ⟨e, hreply, by simpa using hfault⟩
        obtain ⟨before, more, rfl⟩ := refused e hreply hconflict
        refine ⟨before, more, rfl, ?_⟩
        intro signal hsignal
        apply List.mem_flatMap.mpr
        refine ⟨.updated before (before.cancel lease), ?_, ?_⟩
        · apply hmem
          simp [made]
        · rw [Deed.fired_cancel, hsignal]
          exact List.mem_singleton_self signal

end Round

namespace Crew

variable {w w' : Crew} {lease : Lease} {signal : Nat}

/-! ## Signals that were fired -/

theorem put_keeps {phase : Phase} {hand : Lease}
    (h : ∀ s, (w.hands hand).signal? = some s → phase.signal? = some s)
    (hsignal : (w.hands lease).signal? = some signal) :
    ((w.put hand phase).hands lease).signal? = some signal := by
  by_cases hl : lease = hand
  · subst hl
    rw [put_self]
    exact h signal hsignal
  · rw [put_of_ne w phase hl]
    exact hsignal

theorem Step.keeps_signal (h : w.Sound) (hstep : Step w w')
    (hsignal : (w.hands lease).signal? = some signal) :
    (w'.hands lease).signal? = some signal := by
  cases hstep with
  | claim fresh begun =>
      refine put_keeps ?_ hsignal
      intro s hs
      rw [after, (h.unclaimed fresh begun).2] at hs
      cases hs
  | register hand =>
      refine put_keeps ?_ hsignal
      intro s hs
      rw [hand] at hs
      cases hs
  | leave hand | release hand | settle hand | settleFails hand =>
      refine put_keeps ?_ hsignal
      intro s hs
      rw [hand] at hs
      exact hs
  | _ => exact hsignal

theorem Step.keeps_fired (h : w.Sound) (hstep : Step w w') :
    w.registry.fired ⊆ w'.registry.fired := by
  cases hstep with
  | register hand ran =>
      obtain ⟨-, hrest⟩ := Prod.mk.inj ran
      obtain ⟨-, rfl⟩ := Prod.mk.inj hrest
      exact List.Subset.refl _
  | @release lease signal f next hand =>
      obtain ⟨rfl, -⟩ := ((h.hands lease).finishing _ _ hand).release
      exact List.Subset.refl _
  | update round =>
      rcases (h.knows round).progress.updates with rfl | ⟨lease, rfl, -⟩
      · exact List.Subset.refl _
      · intro s hs
        exact Registry.fired_cancel.mpr (.inr hs)
  | _ => exact List.Subset.refl _

theorem Reachable.cancelled_stays (hw : w.Reachable) (hsteps : ReflTransGen Step w w')
    (hsignal : (w.hands lease).signal? = some signal) (hfired : signal ∈ w.registry.fired) :
    w'.Reachable ∧ (w'.hands lease).signal? = some signal ∧ signal ∈ w'.registry.fired := by
  induction hsteps with
  | refl => exact ⟨hw, hsignal, hfired⟩
  | tail _ hstep ih =>
      obtain ⟨hw, hsignal, hfired⟩ := ih
      exact ⟨hw.step hstep, hstep.keeps_signal hw.sound hsignal,
        hstep.keeps_fired hw.sound hfired⟩

/-- A worker whose signal was fired did not settle its lease, which was taken back, and whatever it
calls next leaves the store alone. -/
theorem Sound.cancelled (h : w.Sound) (hsignal : (w.hands lease).signal? = some signal)
    (hfired : signal ∈ w.registry.fired) :
    w.TakenBack lease ∧ w.Unsettled lease ∧
      ∀ s c next, w.hands lease = .finishing s (.call c next) → (w.after c).store = w.store := by
  obtain ⟨hunsettled, htaken⟩ := (h.hands lease).cancelled signal hsignal hfired
  refine ⟨htaken, hunsettled, ?_⟩
  intro s c next hhand
  have hown := ((h.hands lease).finishing s _ hhand).settle.1
  exact Backend.settle_lost (h.not_granted htaken) hown

/-- The signal of a handler is fired only after its own lease was taken back. Its worker did not
settle the lease then, and it does not change the store in any later state, however its handler
ends. A round that is done gives the number of signals that it fired, all of them of workers; and if
the store did not fail, it attended to every lease that was registered when it began. -/
theorem cancels_lost (hw : w.Reachable) :
    (∀ lease signal, (w.hands lease).signal? = some signal → signal ∈ w.registry.fired →
      w.TakenBack lease ∧ ∀ w', ReflTransGen Step w w' → w'.Unsettled lease ∧
        ∀ s c next, w'.hands lease = .finishing s (.call c next) →
          (w'.after c).store = w'.store) ∧
    ∀ round ∈ w.rounds, ∀ count, round.rest = .done count →
      count = round.fired.length ∧ round.fired.Nodup ∧
      (∀ signal ∈ round.fired, signal ∈ w.registry.fired ∧
        ∃ lease, (w.hands lease).signal? = some signal) ∧
      ∃ snapshot later, round.deeds = .updated snapshot snapshot :: later ∧
        (round.Faultless → ∀ lease ∈ snapshot.leases, round.Attends w.history lease) := by
  have hsound := hw.sound
  constructor
  · intro lease signal hsignal hfired
    refine ⟨(hsound.cancelled hsignal hfired).1, ?_⟩
    intro w' hsteps
    obtain ⟨hw', hsignal', hfired'⟩ := hw.cancelled_stays hsteps hsignal hfired
    exact (hw'.sound.cancelled hsignal' hfired').2
  · intro round hround count hdone
    obtain ⟨progress, told, once, fired⟩ := hsound.rounds round hround
    rw [hdone] at progress
    obtain ⟨snapshot, later, hdeeds, hcount, hvisited⟩ := progress.done
    refine ⟨hcount, once, ?_, snapshot, later, hdeeds, ?_⟩
    · intro signal hsignal
      exact ⟨fired hsignal, hsound.fired signal (fired hsignal)⟩
    · intro hfaultless lease hlease
      exact (hvisited lease hlease).attends hdeeds told hfaultless

/-- Two workers of one crew handle one message, because the lease of the first was taken back. A
round renews the lease of the second and fires the signal of the first. -/
theorem reachable_stale : ∃ w : Crew, w.Reachable ∧
    (w.hands ⟨⟨.ofNat 1⟩, ⟨"a"⟩⟩).signal? = some 0 ∧ 0 ∈ w.registry.fired ∧
    ∃ round ∈ w.rounds, round.rest = .done 1 ∧ round.Faultless ∧
      ∃ snapshot later, round.deeds = .updated snapshot snapshot :: later ∧
        snapshot.leases = [⟨⟨.ofNat 1⟩, ⟨"a"⟩⟩, ⟨⟨.ofNat 1⟩, ⟨"b"⟩⟩] := by
  let id : MessageId := ⟨.ofNat 1⟩
  let later : Instant := ⟨2, 0, by decide⟩
  let stale : Lease := ⟨id, ⟨"a"⟩⟩
  let current : Lease := ⟨id, ⟨"b"⟩⟩
  let waiting := NewMessage.toMessage { payload := [1] } id 1 .epoch
  let held := waiting.beginLease ⟨"a"⟩ .epoch
  let again := held.reclaimed.beginLease ⟨"b"⟩ later
  let both : Registry := ⟨[(stale, 0), (current, 1)], 2, []⟩
  have hstart : Reachable _ := .memory later
  have hinserted := hstart.step
    (.elsewhere (c := .insert { payload := [1] } id .epoch) (by decide) nofun)
  have hclaimed := hinserted.step (@Step.claim _ [] ⟨"a"⟩ .epoch stale (by decide) rfl)
  have hregistered := hclaimed.step (.register (put_self ..) rfl)
  have hreset := hregistered.step (.elsewhere (c := .reset held) (by decide) nofun)
  have hretaken := hreset.step (@Step.claim _ [] ⟨"b"⟩ later current (by decide) rfl)
  have hboth := hretaken.step (.register (put_self ..) rfl)
  -- how it came to this does not matter to the round
  obtain ⟨hands, history, hwork, hsignal⟩ : ∃ hands history,
      Reachable ⟨.memory ⟨[again], [], 1⟩, later, both, hands, [], history⟩ ∧
        (hands stale).signal? = some 0 := ⟨_, _, hboth, rfl⟩
  have hsnapshot := (hwork.step .begin).step (@Step.update _ [] [] _ _ _ _ rfl)
  have hrefused := hsnapshot.step (@Step.renew _ [] [] _ _ (.heartbeat id ⟨"a"⟩ later) _ rfl)
  have hcancelled := hrefused.step (@Step.update _ [] [] _ _ (·.cancel stale) _ rfl)
  have hrenewed := hcancelled.step (@Step.renew _ [] [] _ _ (.heartbeat id ⟨"b"⟩ later) _ rfl)
  refine ⟨_, hrenewed, hsignal, List.mem_singleton_self 0, _, List.mem_singleton_self _, rfl, ?_,
    both, _, rfl, rfl⟩
  intro d hd hfault
  simp only [List.nil_append, List.cons_append, List.mem_cons, List.not_mem_nil, or_false] at hd
  rcases hd with rfl | rfl | rfl | rfl
  · exact hfault
  · obtain ⟨e, hreply, hconflict⟩ := hfault
    obtain rfl := Except.error.inj hreply
    cases hconflict
  · exact hfault
  · obtain ⟨e, hreply, -⟩ := hfault
    cases hreply

/-- The first worker lost its lease, changes nothing any more and is the only one that the round
cancelled. -/
theorem cancels_lost_stale : ∃ w : Crew, w.TakenBack ⟨⟨.ofNat 1⟩, ⟨"a"⟩⟩ ∧
    w.Unsettled ⟨⟨.ofNat 1⟩, ⟨"a"⟩⟩ ∧
    ∃ round ∈ w.rounds, round.fired.length = 1 ∧
      round.Attends w.history ⟨⟨.ofNat 1⟩, ⟨"a"⟩⟩ ∧
      round.Attends w.history ⟨⟨.ofNat 1⟩, ⟨"b"⟩⟩ := by
  obtain ⟨w, hw, hsignal, hfired, round, hround, hdone, hfaultless, snapshot, later, hdeeds,
    hleases⟩ := reachable_stale
  obtain ⟨hworkers, hrounds⟩ := cancels_lost hw
  obtain ⟨htaken, hlater⟩ := hworkers _ _ hsignal hfired
  obtain ⟨hcount, -, -, snapshot', later', hdeeds', hattends⟩ := hrounds round hround 1 hdone
  obtain rfl : snapshot = snapshot' :=
    (Deed.updated.inj (List.cons.inj (hdeeds.symm.trans hdeeds')).1).1
  refine ⟨w, htaken, (hlater w .refl).1, round, hround, hcount.symm, ?_, ?_⟩
  · apply hattends hfaultless
    rw [hleases]
    exact List.mem_cons_self
  · apply hattends hfaultless
    rw [hleases]
    exact List.mem_cons_of_mem _ List.mem_cons_self

end Crew

end WorkQueue
