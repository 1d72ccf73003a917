import Mathlib
import WorkQueue.Proofs.Job.Pace
import WorkQueue.Proofs.Scheduler.Firing
import WorkQueue.Proofs.Store.Roll

/-! # Attempts of a tick

A tick sends one event for each job that is due, kept, not stopped and not fired for the slot
before, whatever the store answers and whoever else works on it meanwhile. With regular ticks a job
is due for every fire time at the first tick that reaches it, so no fire time is missed.
-/

namespace WorkQueue

namespace Scheduler

open JobRecord (dueSlots)

variable {σ : Type} (answer : σ → (c : Call) → c.Reply × σ) {s s' mid : Scheduler}
  {due : List (String × Instant)} {events : List Event}

/-- The events of a name that were sent between two states. -/
def attempts (name : String) (s s' : Scheduler) : List Event :=
  (s'.events.pending.drop s.events.pending.length).filter (·.job = name)

/-- Events of the due jobs were sent, and what is kept of all other jobs is as before. -/
structure Sends (due : List (String × Instant)) (s : Scheduler) (events : List Event)
    (s' : Scheduler) : Prop where
  pending : s'.events.pending = s.events.pending ++ events
  named : ∀ e ∈ events, e.job ∈ due.map (·.1)
  queued : ∀ e ∈ events, ∀ p ∈ e.queued?, p ∈ due
  others : ∀ name ∉ due.map (·.1), ∀ slot, s'.candidate? name slot = s.candidate? name slot

theorem Sends.none (due : List (String × Instant)) (s : Scheduler) : Sends due s [] s :=
  ⟨(List.append_nil _).symm, by simp, by simp, fun _ _ _ => rfl⟩

theorem Sends.trans {first rest : List (String × Instant)} {later : List Event}
    (h : Sends first s events mid) (h' : Sends rest mid later s') :
    Sends (first ++ rest) s (events ++ later) s' where
  pending := by rw [h'.pending, h.pending, List.append_assoc]
  named e he := by
    rw [List.map_append, List.mem_append]
    exact (List.mem_append.mp he).imp (h.named e) (h'.named e)
  queued e he p hp :=
    List.mem_append.mpr ((List.mem_append.mp he).imp (h.queued e · p hp) (h'.queued e · p hp))
  others name hname slot := by
    rw [List.map_append, List.mem_append, not_or] at hname
    rw [h'.others name hname.2, h.others name hname.1]

theorem Sends.filter_eq_nil (h : Sends due s events s') {name : String}
    (hname : name ∉ due.map (·.1)) : events.filter (·.job = name) = [] := by
  rw [List.filter_eq_nil_iff]
  intro e he heq
  exact hname (of_decide_eq_true heq ▸ h.named e he)

theorem attempts_eq (h : Sends due s events s') (name : String) :
    attempts name s s' = events.filter (·.job = name) := by
  rw [attempts, h.pending, List.drop_left]

theorem find?_markLocal {name other : String} (hne : other ≠ name) (slot : Instant)
    (s : Scheduler) : (s.markLocal name slot).find? other = s.find? other := by
  simp only [find?, markLocal]
  induction s.jobs with
  | nil => rfl
  | cons j jobs ih =>
      rw [List.map_cons, List.find?_cons, List.find?_cons, ih]
      by_cases hj : j.name = name
      · simp [hj, hne.symm]
      · simp [hj]

theorem candidate?_markLocal {name other : String} (hne : other ≠ name) (fired slot : Instant)
    (s : Scheduler) : (s.markLocal name fired).candidate? other slot = s.candidate? other slot := by
  rw [candidate?, candidate?, find?_markLocal hne]
  rfl

theorem Sends.emit (name : String) (slot : Instant) (e : Event) (hjob : e.job = name)
    (hqueued : ∀ p ∈ e.queued?, p = (name, slot)) (s : Scheduler) :
    Sends [(name, slot)] s [e] (s.emit e) where
  pending := rfl
  named := by simp [hjob]
  queued := by simpa using hqueued
  others _ _ _ := rfl

theorem Sends.exception (name : String) (slot : Instant) (error : String) (s : Scheduler) :
    Sends [(name, slot)] s [.exception name error] (s.emit (.exception name error)) :=
  .emit name slot _ rfl (by simp [Event.queued?]) s

theorem Sends.of_marked {name : String} {slot : Instant}
    (h : Sends [(name, slot)] (s.markLocal name slot) events s') :
    Sends [(name, slot)] s events s' where
  pending := h.pending
  named := h.named
  queued := h.queued
  others other hother t := by
    have hne : other ≠ name := by simpa using hother
    rw [h.others other hother, candidate?_markLocal hne]

theorem settle_sends (name : String) (slot : Instant) (reply : Except StoreError MessageId)
    (store : σ) (s : Scheduler) :
    ∃ e, Sends [(name, slot)] s [e] ((settle name slot reply).run answer store s).2.2 := by
  cases reply with
  | ok id =>
      let e := Event.queued name slot id
      exact ⟨e, .of_marked (.emit name slot e rfl (by simp [e, Event.queued?]) _)⟩
  | error e =>
      cases e with
      | duplicateKey key =>
          let e := Event.nonFatal name ("message for " ++ key ++ " already enqueued")
          exact ⟨e, .of_marked (.emit name slot e rfl (by simp [e, Event.queued?]) _)⟩
      | notFound | notOwned | unavailable | unreadable => exact ⟨_, .exception name slot _ s⟩

theorem fire_sends (now stamp : Instant) (id : MessageId) (name : String) (slot : Instant)
    (store : σ) (s : Scheduler) :
    ∃ events, Sends [(name, slot)] s events
        ((fire now stamp id name slot).run answer store s).2.2 ∧
      events.length = (s.candidate? name slot).toList.length := by
  rw [fire, Procedure.run_bind, Procedure.run_read]
  dsimp only
  cases s.candidate? name slot with
  | none => exact ⟨[], .none _ s, rfl⟩
  | some job =>
      dsimp only
      cases job.factory ⟨name, slot, now⟩ with
      | error e => exact ⟨_, .exception name slot e.text s, rfl⟩
      | ok message =>
          dsimp only
          rw [Procedure.run_bind, Procedure.run_ask]
          obtain ⟨e, he⟩ := settle_sends answer name slot _ _ s
          exact ⟨[e], he, rfl⟩

/-- Of due slots of distinct names, each is attempted if its job is a candidate. -/
theorem fireEach_sends (now stamp : Instant) (draw : Nat → MessageId)
    {due : List (String × Instant)} (hnames : (due.map (·.1)).Nodup) (drawn stored : Nat)
    (store : σ) (s : Scheduler) :
    ∃ events,
      Sends due s events ((fireEach now stamp draw due drawn stored).run answer store s).2.2 ∧
      ∀ p ∈ due, (events.filter (·.job = p.1)).length = (s.candidate? p.1 p.2).toList.length := by
  induction due generalizing drawn stored store s with
  | nil => exact ⟨[], .none _ s, by simp⟩
  | cons p due ih =>
      obtain ⟨hfresh, hrest⟩ := List.nodup_cons.mp hnames
      rw [fireEach, Procedure.run_bind]
      obtain ⟨first, hfirst, hlength⟩ :=
        fire_sends answer now stamp (draw drawn) p.1 p.2 store s
      obtain ⟨later, hlater, hcounts⟩ := ih hrest _ _ _ _
      refine ⟨first ++ later, hfirst.trans hlater, ?_⟩
      intro q hq
      rw [List.filter_append]
      rcases List.mem_cons.mp hq with rfl | hq
      · have hall : first.filter (·.job = q.1) = first := by
          rw [List.filter_eq_self]
          intro e he
          simpa using hfirst.named e he
        rw [hall, hlater.filter_eq_nil hfresh, List.append_nil, hlength]
      · have hne : q.1 ∉ [p].map (·.1) := by
          intro hmem
          rw [List.map_singleton, List.mem_singleton] at hmem
          exact hfresh (List.mem_map.mpr ⟨q, hq, hmem⟩)
        rw [hfirst.filter_eq_nil hne, List.nil_append, hcounts q hq, hfirst.others q.1 hne]

variable {answer} {now stamp : Instant} {draw : Nat → MessageId} {store : σ} {jobs : List JobRecord}
  {j : JobRecord} {cs : Cron.Schedule} {slot : Instant}

theorem tick_sends (hload : (answer store .loadJobs).1 = .ok jobs)
    (hnames : (jobs.map (·.name)).Nodup) (now stamp : Instant) (draw : Nat → MessageId)
    (s : Scheduler) :
    ∃ events, Sends (dueSlots jobs now) s events
        ((tick now stamp draw).run answer store s).2.2 ∧
      ∀ p ∈ dueSlots jobs now,
        (events.filter (·.job = p.1)).length = (s.candidate? p.1 p.2).toList.length := by
  rw [tick, Procedure.run_bind, Procedure.run_ask, hload]
  dsimp only
  rw [Procedure.run_bind]
  have hdistinct := hnames.sublist (JobRecord.dueSlots_names jobs now)
  exact fireEach_sends answer now stamp draw hdistinct _ _ _ s

theorem mem_dueSlots_iff (hnames : (jobs.map (·.name)).Nodup) (hj : j ∈ jobs)
    (hactive : j.isActive = true) (hparse : Cron.Schedule.parse j.cron = .ok cs) :
    (j.name, slot) ∈ dueSlots jobs now ↔ j.dueSlot? cs now = some slot := by
  rw [JobRecord.mem_dueSlots]
  constructor
  · rintro ⟨a, ha, hname, -, cs', hparse', hslot⟩
    obtain rfl := List.inj_on_of_nodup_map hnames ha hj hname
    rwa [Except.ok.inj (hparse'.symm.trans hparse)] at hslot
  · intro hslot
    exact ⟨j, hj, rfl, hactive, cs, hparse, hslot⟩

theorem tick_quiet (hload : (answer store .loadJobs).1 = .ok jobs)
    (hnames : (jobs.map (·.name)).Nodup) (hj : j ∈ jobs) (hactive : j.isActive = true)
    (hparse : Cron.Schedule.parse j.cron = .ok cs) (hdue : j.dueSlot? cs now = none) :
    attempts j.name s ((tick now stamp draw).run answer store s).2.2 = [] := by
  obtain ⟨events, hsends, -⟩ := tick_sends hload hnames now stamp draw s
  rw [attempts_eq hsends]
  apply hsends.filter_eq_nil
  intro hmem
  obtain ⟨⟨name, slot⟩, hp, rfl⟩ := List.mem_map.mp hmem
  rw [mem_dueSlots_iff hnames hj hactive hparse, hdue] at hp
  cases hp

/-- A due job is attempted once if it is a candidate, and otherwise not at all. -/
theorem tick_attempts (hload : (answer store .loadJobs).1 = .ok jobs)
    (hnames : (jobs.map (·.name)).Nodup) (hj : j ∈ jobs) (hactive : j.isActive = true)
    (hparse : Cron.Schedule.parse j.cron = .ok cs) (hdue : j.dueSlot? cs now = some slot)
    (stamp : Instant) (draw : Nat → MessageId) (s : Scheduler) :
    let sent := attempts j.name s ((tick now stamp draw).run answer store s).2.2
    sent.length = (s.candidate? j.name slot).toList.length ∧
      ∀ e ∈ sent, ∀ p ∈ e.queued?, p = (j.name, slot) := by
  intro sent
  obtain ⟨events, hsends, hcounts⟩ := tick_sends hload hnames now stamp draw s
  have hsent : sent = events.filter (·.job = j.name) := attempts_eq hsends j.name
  have hmem := (mem_dueSlots_iff hnames hj hactive hparse).mpr hdue
  refine ⟨hsent ▸ hcounts _ hmem, ?_⟩
  intro e he p hp
  rw [hsent] at he
  obtain ⟨he, hjob⟩ := List.mem_filter.mp he
  have hname : p.1 = j.name := by
    have hjob := of_decide_eq_true hjob
    cases e with
    | queued job t id =>
        obtain rfl := Option.some.inj hp
        exact hjob
    | exception | nonFatal => cases hp
  have hpdue := hsends.queued e he p hp
  obtain ⟨name, t⟩ := p
  obtain rfl := hname
  rw [mem_dueSlots_iff hnames hj hactive hparse, hdue] at hpdue
  rw [Option.some.inj hpdue]

/-- No fire time is missed by regular ticking: if the job is added and then ticks follow, none
further from the one before than the bucket is wide, the job is due for each fire time at the first
tick that reaches it, unless its slot fired last, and that tick attempts it just once, unless the
scheduler fired it before. -/
theorem no_fire_missed {cron : String} (hparse : Cron.Schedule.parse cron = .ok cs)
    (honce : cs.OncePerUnit) {armedAt f : Instant} {ticks : List Instant}
    (hpace : (armedAt :: ticks).IsChain (Instant.Within cs.granularity.unit)) (hf : cs.Fires f)
    (harmed : armedAt < f) (hreached : ∃ t ∈ ticks, f ≤ t) :
    ∃ now, ticks.find? (f ≤ ·) = some now ∧
      ∀ j : JobRecord, j.cron = cron → j.armedAt ≤ armedAt → j.isActive = true →
        j.dueSlot? cs now =
          (if j.lastFiredSlot = some (cs.slotOf f) then none else some (cs.slotOf f)) ∧
        ∀ (jobs : List JobRecord) (s : Scheduler) (kept : LocalJob), Backend.Gives jobs → j ∈ jobs →
          s.find? j.name = some kept → s.isStopped kept.handle = false →
          ∀ {σ : Type} (answer : σ → (c : Call) → c.Reply × σ) (store : σ) (stamp : Instant)
            (draw : Nat → MessageId), (answer store .loadJobs).1 = .ok jobs →
            let sent := attempts j.name s ((tick now stamp draw).run answer store s).2.2
            if j.lastFiredSlot = some (cs.slotOf f) ∨ kept.lastFiredSlot = some (cs.slotOf f) then
              sent = []
            else ∃ e, sent = [e] ∧ ∀ p ∈ e.queued?, p = (j.name, cs.slotOf f) := by
  obtain ⟨now, hfirst⟩ : ∃ now, ticks.find? (f ≤ ·) = some now := by
    rw [← Option.isSome_iff_exists, List.find?_isSome]
    simpa using hreached
  have hnow : f ≤ now := of_decide_eq_true (List.find?_some (p := fun t => decide (f ≤ t)) hfirst)
  obtain ⟨before, hbefore, hstep⟩ := JobRecord.exists_before hpace harmed hfirst
  refine ⟨now, hfirst, ?_⟩
  intro j hcron hadded hactive
  have hdue := JobRecord.dueSlot?_within (Cron.Schedule.parse_ordered hparse) honce hactive hstep
    hbefore hf hnow (lt_of_le_of_lt hadded harmed)
  refine ⟨hdue, ?_⟩
  intro jobs s kept hgives hj hkept hrunning σ answer store stamp draw hload sent
  have hnames := hgives.names
  have hparse' : Cron.Schedule.parse j.cron = .ok cs := hcron ▸ hparse
  by_cases hfired : j.lastFiredSlot = some (cs.slotOf f)
  · rw [if_pos hfired] at hdue
    rw [if_pos (.inl hfired)]
    exact tick_quiet hload hnames hj hactive hparse' hdue
  · rw [if_neg hfired] at hdue
    obtain ⟨hlength, hqueued⟩ :=
      tick_attempts hload hnames hj hactive hparse' hdue stamp draw s
    rw [candidate?, hkept] at hlength
    simp only [hrunning, Bool.false_or, decide_eq_true_eq] at hlength
    by_cases hlocal : kept.lastFiredSlot = some (cs.slotOf f)
    · rw [if_pos (.inr hlocal)]
      rw [if_pos hlocal] at hlength
      exact List.length_eq_zero_iff.mp hlength
    · rw [if_neg (not_or.mpr ⟨hfired, hlocal⟩)]
      rw [if_neg hlocal] at hlength
      obtain ⟨e, he⟩ := List.length_eq_one_iff.mp hlength
      exact ⟨e, he, hqueued e (by rw [he]; exact List.mem_singleton_self e)⟩

/-- Ticks shortly before the full minutes, and a window that is too long to be a span. -/
theorem no_fire_missed_minutes :
    let report : PayloadFactory := fun _ => .ok { payload := [1] }
    let window : Duration := ⟨18446744073709551615, 0, by decide⟩
    let armedAt : Instant := ⟨30, 500000000, by decide⟩
    let second : Instant := ⟨119, 900000000, by decide⟩
    let added := (addJob "report" "0 * * * * *" report (some window) armedAt).run Backend.answer
      (.table .empty) (.make 8)
    ∃ e, attempts "report" added.2.2 ((tick second .epoch fun _ => ⟨.ofNat 1⟩).run Backend.answer
        added.2.1 added.2.2).2.2 = [e] ∧
      ∀ p ∈ e.queued?, p = ("report", ⟨60, 0, by decide⟩) := by
  intro report window armedAt second added
  let f : Instant := ⟨60, 0, by decide⟩
  let first : Instant := ⟨59, 900000000, by decide⟩
  let record := JobRecord.make "report" "0 * * * * *" (some window) armedAt
  let job := { record with window := some (Duration.ofColumn window.column) }
  obtain ⟨cs, hparse⟩ : ∃ cs, Cron.Schedule.parse "0 * * * * *" = .ok cs := by
    match h : Cron.Schedule.parse "0 * * * * *" with
    | .ok cs => exact ⟨cs, rfl⟩
    | .error fault =>
        have hread : (Cron.Schedule.parse "0 * * * * *").toOption.isSome = true := by decide +kernel
        rw [h] at hread
        cases hread
  have hread : ((Cron.Schedule.parse "0 * * * * *").toOption.map fun cs =>
      (cs.granularity, cs.fields.seconds.length, decide (cs.fields.Fires 60))) =
        some (.minute, 1, true) := by decide +kernel
  rw [hparse] at hread
  obtain ⟨hminute, hread⟩ := Prod.mk.inj (Option.some.inj hread)
  obtain ⟨hsingle, hfires⟩ := Prod.mk.inj hread
  have hslot : cs.slotOf f = f := by
    rw [Cron.Schedule.slotOf, hminute]
    rfl
  have hpace : (armedAt :: [first, second]).IsChain (Instant.Within cs.granularity.unit) := by
    rw [hminute]
    decide
  obtain ⟨now, hfirst, hjobs⟩ := no_fire_missed hparse (fun _ => hsingle) hpace (f := f)
    ⟨rfl, of_decide_eq_true hfires⟩ (by decide) ⟨second, by simp, by decide⟩
  obtain rfl : second = now := Option.some.inj hfirst
  have hgives : Backend.Gives [job] :=
    ⟨.table .empty, [.saveJob record], .inr rfl, by decide +kernel⟩
  have hattempt := (hjobs job rfl (le_refl _) rfl).2 [job] added.2.2 ⟨"report", report, 0, none⟩
    hgives (List.mem_singleton_self job) rfl rfl Backend.answer added.2.1 .epoch
    (fun _ => ⟨.ofNat 1⟩) (by decide +kernel)
  rw [if_neg (by simp [job, record, JobRecord.make]), hslot] at hattempt
  exact hattempt

end Scheduler

end WorkQueue
