import Mathlib
import WorkQueue.Proofs.Scheduler.Attempts
import WorkQueue.Proofs.Store.Lifecycle

/-! # What one tick does

A tick makes one attempt at every due slot whose job the scheduler keeps, has not stopped and has not
fired for the slot. What the attempt comes to is decided by the factory of the job and by the
messages that were there before the tick: the attempts of one tick are for different names, and a
new message blocks its own name only. So the tick is the attempts carried out one after the other,
and each is described by itself.
-/

namespace WorkQueue

/-- What an attempt comes to. -/
inductive Verdict where
  /-- The message is stored. -/
  | stored (message : NewMessage)
  /-- A message blocks the slot. -/
  | taken
  /-- The factory gives no message. -/
  | refused (error : QueueError)

/-- The factory is asked first, and then the messages. -/
def Verdict.of (messages : List Message) (factory : PayloadFactory) (key : JobSlotKey)
    (now : Instant) : Verdict :=
  match factory ⟨key.name, key.slot, now⟩ with
  | .error e => .refused e
  | .ok message => if messages.any (·.blocks key) then .taken else .stored message

/-- One attempt to fire a job for a slot, with the identifier that was drawn for it. -/
structure Attempt where
  job : String
  slot : Instant
  id : MessageId
  verdict : Verdict

namespace Attempt

def due (a : Attempt) : String × Instant := (a.job, a.slot)

def isStored (a : Attempt) : Bool :=
  match a.verdict with
  | .stored _ => true
  | .taken | .refused _ => false

def isRefused (a : Attempt) : Bool :=
  match a.verdict with
  | .refused _ => true
  | .stored _ | .taken => false

/-- The one event that tells of the attempt. -/
def event (a : Attempt) : Event :=
  match a.verdict with
  | .stored _ => .queued a.job a.slot a.id
  | .taken =>
    .nonFatal a.job ("message for " ++ (⟨a.job, a.slot⟩ : JobSlotKey).text ++ " already enqueued")
  | .refused e => .exception a.job e.text

/-- The message that an attempt stores: waiting, with the key of the slot and in its two headers the
name and the slot. -/
structure Stores (stamp : Instant) (a : Attempt) (m : Message) : Prop where
  made : ∃ message, a.verdict = .stored message ∧
    m = (message.forJob a.job a.slot).toMessage a.id m.sequence stamp
  waiting : m.status = .waiting
  key : m.job = some ⟨a.job, a.slot⟩
  name : m.headers.getText? NewMessage.jobNameHeader = some a.job
  slot : m.headers.getText? NewMessage.jobSlotHeader = some (a.slot.text .seconds)

/-- Carry an attempt out on a store and a scheduler. -/
def carry (stamp : Instant) (w : Memory × Scheduler) (a : Attempt) : Memory × Scheduler :=
  match a.verdict with
  | .stored message =>
    ((w.1.add (message.forJob a.job a.slot) a.id stamp).modifyJob a.job (·.markFired a.slot),
      (w.2.markLocal a.job a.slot).emit a.event)
  | .taken => (w.1, (w.2.markLocal a.job a.slot).emit a.event)
  | .refused _ => (w.1, w.2.emit a.event)

theorem event_queued? (a : Attempt) :
    a.event.queued? = if a.isStored then some a.due else none := by
  cases hverdict : a.verdict <;> simp [event, isStored, due, Event.queued?, hverdict]

theorem stores_toMessage {a : Attempt} {message : NewMessage} (h : a.verdict = .stored message)
    (sequence : Nat) (stamp : Instant) :
    a.Stores stamp ((message.forJob a.job a.slot).toMessage a.id sequence stamp) where
  made := ⟨message, h, rfl⟩
  waiting := rfl
  key := rfl
  name := by
    have hne : NewMessage.jobNameHeader ≠ NewMessage.jobSlotHeader := by decide
    exact (Headers.getText?_setText_of_ne _ hne _).trans (Headers.getText?_setText_self _ _ _)
  slot := Headers.getText?_setText_self _ _ _

end Attempt

/-- The job after fired slots of its name are noted, one after the other. -/
def LocalJob.markedBy (fired : List (String × Instant)) (j : LocalJob) : LocalJob :=
  fired.foldl (fun j p => if j.name = p.1 then { j with lastFiredSlot := some p.2 } else j) j

theorem LocalJob.markedBy_append (earlier later : List (String × Instant)) (j : LocalJob) :
    j.markedBy (earlier ++ later) = (j.markedBy earlier).markedBy later :=
  List.foldl_append

theorem Memory.after_sorted (calls : List Call) : JobRecord.Sorted (after calls).jobs := by
  induction calls using List.reverseRecOn with
  | nil => exact .nil
  | append_singleton calls c ih =>
      rw [after_append]
      exact answer_sorted ih c

namespace Scheduler

open JobRecord (dueSlots markedBy)

variable {now stamp : Instant} {draw : Nat → MessageId} {due : List (String × Instant)}
  {s s' : Scheduler} {store : Memory} {messages messages' : List Message}

/-! ## A tick is its attempts -/

theorem candidate?_eq_some_iff {name : String} {slot : Instant} {job : LocalJob} :
    s.candidate? name slot = some job ↔ s.find? name = some job ∧
      s.isStopped job.handle = false ∧ job.lastFiredSlot ≠ some slot := by
  rw [candidate?]
  cases s.find? name with
  | none => simp
  | some kept =>
      dsimp only
      rw [Option.ite_none_left_eq_some]
      constructor
      · rintro ⟨hguard, hjob⟩
        obtain rfl := Option.some.inj hjob
        simpa using hguard
      · rintro ⟨hjob, hguard⟩
        obtain rfl := Option.some.inj hjob
        simpa using hguard

theorem isSome_candidate? (s : Scheduler) (name : String) (slot : Instant) :
    (s.candidate? name slot).isSome = (s.find? name).any fun job =>
      !s.isStopped job.handle && job.lastFiredSlot ≠ some slot := by
  rw [Bool.eq_iff_iff, Option.isSome_iff_exists, Option.any_eq_true]
  simp only [candidate?_eq_some_iff, Bool.and_eq_true, Bool.not_eq_true', decide_eq_true_eq]

/-- The attempt at a due slot, if its job is a candidate. -/
def attempt? (s : Scheduler) (messages : List Message) (now : Instant) (p : String × Instant)
    (id : MessageId) : Option Attempt :=
  (s.candidate? p.1 p.2).map fun job =>
    ⟨p.1, p.2, id, .of messages job.factory ⟨p.1, p.2⟩ now⟩

/-- The attempts at due slots, all of them decided by the same state. -/
def plan (s : Scheduler) (messages : List Message) (now : Instant) (draw : Nat → MessageId) :
    (due : List (String × Instant)) → (drawn : Nat) → List Attempt
  | [], _ => []
  | p :: due, drawn =>
    (s.attempt? messages now p (draw drawn)).toList ++ s.plan messages now draw due (drawn + 1)

/-- Two states decide alike about the slots of some names. -/
def Alike (due : List (String × Instant)) (s s' : Scheduler) (messages messages' : List Message) :
    Prop :=
  ∀ p ∈ due, s.candidate? p.1 p.2 = s'.candidate? p.1 p.2 ∧
    messages.any (·.blocks ⟨p.1, p.2⟩) = messages'.any (·.blocks ⟨p.1, p.2⟩)

theorem plan_congr (h : Alike due s s' messages messages') (now : Instant) (draw : Nat → MessageId)
    (drawn : Nat) :
    s.plan messages now draw due drawn = s'.plan messages' now draw due drawn := by
  induction due generalizing drawn with
  | nil => rfl
  | cons p due ih =>
      obtain ⟨hcandidate, hblocks⟩ := h p List.mem_cons_self
      rw [plan, plan, ih fun q hq => h q (List.mem_cons_of_mem p hq)]
      simp only [attempt?, hcandidate, Verdict.of, hblocks]

/-- An attempt says nothing about the slots of other names. -/
theorem alike_carry (a : Attempt) (hothers : ∀ p ∈ due, p.1 ≠ a.job) (stamp : Instant)
    (w : Memory × Scheduler) :
    Alike due (a.carry stamp w).2 w.2 (a.carry stamp w).1.messages w.1.messages := by
  intro p hp
  have hne := hothers p hp
  unfold Attempt.carry
  split
  · refine ⟨candidate?_markLocal hne a.slot p.2 w.2, ?_⟩
    have hfree (m : NewMessage) (sequence : Nat) :
        ((m.forJob a.job a.slot).toMessage a.id sequence stamp).blocks ⟨p.1, p.2⟩ = false := by
      simp [Message.blocks, NewMessage.toMessage, NewMessage.forJob, hne.symm]
    simp [Memory.modifyJob, Memory.add, hfree]
  · exact ⟨candidate?_markLocal hne a.slot p.2 w.2, rfl⟩
  · exact ⟨rfl, rfl⟩

theorem fire_run (now stamp : Instant) (id : MessageId) (p : String × Instant) (store : Memory)
    (s : Scheduler) :
    (fire now stamp id p.1 p.2).run Memory.answer store s =
      match s.attempt? store.messages now p id with
      | none => (false, store, s)
      | some a => (a.isStored, a.carry stamp (store, s)) := by
  rw [fire, Procedure.run_bind, Procedure.run_read]
  simp only [attempt?, Verdict.of]
  cases s.candidate? p.1 p.2 with
  | none => rfl
  | some job =>
      simp only [Option.map_some]
      cases job.factory ⟨p.1, p.2, now⟩ with
      | error e => rfl
      | ok message =>
          simp only
          rw [Procedure.run_bind, Procedure.run_ask]
          have hinsert : Memory.answer store (.insert (message.forJob p.1 p.2) id stamp) =
              if store.messages.any (·.blocks ⟨p.1, p.2⟩) then
                (.error (.duplicateKey (⟨p.1, p.2⟩ : JobSlotKey).text), store)
              else (.ok id, store.add (message.forJob p.1 p.2) id stamp) := rfl
          rw [hinsert]
          split <;> rfl

/-- Firing due slots of distinct names is carrying out their attempts. -/
theorem fireEach_run (hnames : (due.map (·.1)).Nodup) (drawn stored : Nat) (store : Memory)
    (s : Scheduler) :
    (fireEach now stamp draw due drawn stored).run Memory.answer store s =
      (stored + (s.plan store.messages now draw due drawn).countP (·.isStored),
        (s.plan store.messages now draw due drawn).foldl (Attempt.carry stamp) (store, s)) := by
  induction due generalizing drawn stored store s with
  | nil => rfl
  | cons p due ih =>
      obtain ⟨hfresh, hrest⟩ := List.nodup_cons.mp hnames
      rw [fireEach, Procedure.run_bind, fire_run, plan]
      cases hattempt : s.attempt? store.messages now p (draw drawn) with
      | none =>
          simp only [Option.toList_none, List.nil_append]
          exact ih hrest _ _ store s
      | some a =>
          have hjob : a.job = p.1 := by
            obtain ⟨job, -, rfl⟩ := Option.map_eq_some_iff.mp hattempt
            rfl
          have hothers : ∀ q ∈ due, q.1 ≠ a.job := fun q hq heq =>
            hfresh (List.mem_map.mpr ⟨q, hq, heq.trans hjob⟩)
          have hplan :=
            plan_congr (alike_carry a hothers stamp (store, s)) now draw (drawn + 1)
          simp only [Option.toList_some, List.singleton_append, List.foldl_cons,
            List.countP_cons]
          rw [ih hrest, hplan]
          refine Prod.ext ?_ rfl
          dsimp only
          split <;> omega

/-! ## What the attempts leave behind -/

/-- The slots that are noted by the scheduler itself. -/
def settled (attempts : List Attempt) : List (String × Instant) :=
  (attempts.filter (!·.isRefused)).map Attempt.due

theorem foldl_noted {α : Type} (name : α → String) (f : α → Instant → α)
    (hname : ∀ a t, name (f a t) = name a) {fired : List (String × Instant)}
    (hnames : (fired.map (·.1)).Nodup) (a : α) :
    fired.foldl (fun a p => if name a = p.1 then f a p.2 else a) a =
      (fired.lookup (name a)).elim a (f a) := by
  induction fired generalizing a with
  | nil => rfl
  | cons p fired ih =>
      obtain ⟨hfresh, hrest⟩ := List.nodup_cons.mp hnames
      rw [List.foldl_cons, ih hrest, List.lookup_cons]
      by_cases heq : name a = p.1
      · have hnone : fired.lookup p.1 = none := by
          rw [List.lookup_eq_none_iff]
          intro q hq
          simpa using fun heq => hfresh (List.mem_map.mpr ⟨q, hq, heq.symm⟩)
        simp [heq, hname, hnone]
      · simp [heq, beq_eq_false_iff_ne.mpr heq]

/-- The scheduler after attempts: their slots are noted and their events sent. -/
def attempted (attempts : List Attempt) (s : Scheduler) : Scheduler :=
  { s with
    jobs := s.jobs.map (LocalJob.markedBy (settled attempts))
    events := { s.events with pending := s.events.pending ++ attempts.map Attempt.event } }

theorem attempted_nil (s : Scheduler) : s.attempted [] = s := by
  have hjobs : s.jobs.map (LocalJob.markedBy (settled [])) = s.jobs := List.map_id s.jobs
  simp [attempted, hjobs]

theorem attempted_append (earlier later : List Attempt) (s : Scheduler) :
    s.attempted (earlier ++ later) = (s.attempted earlier).attempted later := by
  simp [attempted, settled, LocalJob.markedBy_append]

theorem carry_attempted (stamp : Instant) (a : Attempt) (w : Memory × Scheduler) :
    (a.carry stamp w).2 = w.2.attempted [a] := by
  have hnothing : w.2.jobs.map (LocalJob.markedBy []) = w.2.jobs := List.map_id w.2.jobs
  cases hverdict : a.verdict <;>
    simp [Attempt.carry, hverdict, attempted, settled, Attempt.isRefused, emit, markLocal,
      Subscription.send, hnothing, LocalJob.markedBy, Attempt.due]

theorem carryAll_attempted (stamp : Instant) (attempts : List Attempt) (w : Memory × Scheduler) :
    (attempts.foldl (Attempt.carry stamp) w).2 = w.2.attempted attempts := by
  induction attempts generalizing w with
  | nil => exact (attempted_nil w.2).symm
  | cons a attempts ih =>
      rw [List.foldl_cons, ih, carry_attempted, ← attempted_append, List.singleton_append]

theorem carry_messages (stamp : Instant) (a : Attempt) (w : Memory × Scheduler) :
    ∃ added, (a.carry stamp w).1.messages = w.1.messages ++ added ∧
      List.Forall₂ (Attempt.Stores stamp) ([a].filter (·.isStored)) added := by
  cases hverdict : a.verdict with
  | stored message =>
      refine ⟨[(message.forJob a.job a.slot).toMessage a.id (w.1.lastSequence + 1) stamp], ?_, ?_⟩
      · simp [Attempt.carry, hverdict, Memory.modifyJob, Memory.add]
      · simp [Attempt.isStored, hverdict, Attempt.stores_toMessage hverdict]
  | taken => exact ⟨[], by simp [Attempt.carry, hverdict], by simp [Attempt.isStored, hverdict]⟩
  | refused e => exact ⟨[], by simp [Attempt.carry, hverdict], by simp [Attempt.isStored, hverdict]⟩

theorem carryAll_messages (stamp : Instant) (attempts : List Attempt) (w : Memory × Scheduler) :
    ∃ added, (attempts.foldl (Attempt.carry stamp) w).1.messages = w.1.messages ++ added ∧
      List.Forall₂ (Attempt.Stores stamp) (attempts.filter (·.isStored)) added := by
  induction attempts generalizing w with
  | nil => exact ⟨[], (List.append_nil _).symm, .nil⟩
  | cons a attempts ih =>
      obtain ⟨first, hfirst, hstores⟩ := carry_messages stamp a w
      obtain ⟨rest, hrest, hstores'⟩ := ih (a.carry stamp w)
      refine ⟨first ++ rest, ?_, ?_⟩
      · rw [List.foldl_cons, hrest, hfirst, List.append_assoc]
      · rw [← List.singleton_append, List.filter_append]
        exact List.rel_append hstores hstores'

/-! ## One tick -/

/-- The slots that a tick queues, told by its events. -/
def queuedBy (attempts : List Attempt) : List (String × Instant) :=
  (attempts.map Attempt.event).filterMap Event.queued?

/-- What a tick does to a store and a scheduler, told by its attempts. -/
structure Ticked (now stamp : Instant) (store : Memory) (s : Scheduler) (attempts : List Attempt)
    (after : Except QueueError Nat × Memory × Scheduler) : Prop where
  /-- There is one attempt at each due slot whose job is kept, not stopped and not fired for it. -/
  due : attempts.map Attempt.due = (dueSlots store.jobs now).filter fun p =>
    (s.find? p.1).any fun job => !s.isStopped job.handle && job.lastFiredSlot ≠ some p.2
  once : (attempts.map (·.job)).Nodup
  /-- The factory and the messages before the tick decide, and nothing else does. -/
  decided : ∀ a ∈ attempts, ∃ job, s.find? a.job = some job ∧ s.isStopped job.handle = false ∧
    job.lastFiredSlot ≠ some a.slot ∧
    a.verdict = .of store.messages job.factory ⟨a.job, a.slot⟩ now
  events : after.2.2.events =
    { s.events with pending := s.events.pending ++ attempts.map Attempt.event }
  messages : ∃ added, after.2.1.messages = store.messages ++ added ∧
    List.Forall₂ (Attempt.Stores stamp) (attempts.filter (·.isStored)) added
  jobs : after.2.1.jobs =
    store.jobs.map fun j => ((queuedBy attempts).lookup j.name).elim j j.markFired
  locals : after.2.2.jobs = s.jobs.map fun j =>
    ((settled attempts).lookup j.name).elim j fun slot => { j with lastFiredSlot := some slot }
  handles : after.2.2.handles = s.handles ∧ after.2.2.stopped = s.stopped
  result : after.1 = .ok (queuedBy attempts).length
  grown : after.2.1.messages.length = store.messages.length + (queuedBy attempts).length

theorem plan_due (due : List (String × Instant)) (drawn : Nat) :
    (s.plan messages now draw due drawn).map Attempt.due =
      due.filter fun p => (s.candidate? p.1 p.2).isSome := by
  induction due generalizing drawn with
  | nil => rfl
  | cons p due ih =>
      rw [plan, List.map_append, ih, attempt?]
      cases hcandidate : s.candidate? p.1 p.2 <;> simp [hcandidate, Attempt.due]

theorem plan_decided {due : List (String × Instant)} {drawn : Nat} :
    ∀ a ∈ s.plan messages now draw due drawn, ∃ job, s.candidate? a.job a.slot = some job ∧
      a.verdict = .of messages job.factory ⟨a.job, a.slot⟩ now := by
  induction due generalizing drawn with
  | nil => simp [plan]
  | cons p due ih =>
      intro a ha
      rcases List.mem_append.mp ha with ha | ha
      · obtain ⟨job, hjob, rfl⟩ := Option.map_eq_some_iff.mp (Option.mem_toList.mp ha)
        exact ⟨job, hjob, rfl⟩
      · exact ih a ha

theorem queuedBy_eq (attempts : List Attempt) :
    queuedBy attempts = (attempts.filter (·.isStored)).map Attempt.due := by
  induction attempts with
  | nil => rfl
  | cons a attempts ih =>
      simp only [queuedBy, List.map_cons, List.filterMap_cons, Attempt.event_queued?,
        List.filter_cons] at ih ⊢
      cases a.isStored <;> simp [ih]

theorem plan_once {due : List (String × Instant)} (hnames : (due.map (·.1)).Nodup) (drawn : Nat) :
    ((s.plan messages now draw due drawn).map (·.job)).Nodup := by
  have hjobs : (s.plan messages now draw due drawn).map (·.job) =
      ((s.plan messages now draw due drawn).map Attempt.due).map (·.1) := by
    rw [List.map_map]
    rfl
  rw [hjobs, plan_due]
  exact hnames.sublist (List.filter_sublist.map _)

theorem once_filter {attempts : List Attempt} (honce : (attempts.map (·.job)).Nodup)
    (p : Attempt → Bool) : (((attempts.filter p).map Attempt.due).map (·.1)).Nodup := by
  rw [List.map_map]
  exact honce.sublist (List.filter_sublist.map _)

theorem tick_ticked (h : JobRecord.Sorted store.jobs) (now stamp : Instant)
    (draw : Nat → MessageId) (s : Scheduler) :
    ∃ attempts,
      Ticked now stamp store s attempts ((tick now stamp draw).run Memory.answer store s) := by
  have hnames := h.names.sublist (JobRecord.dueSlots_names store.jobs now)
  let attempts := s.plan store.messages now draw (dueSlots store.jobs now) 0
  have honce : (attempts.map (·.job)).Nodup := plan_once hnames 0
  have hrun : (tick now stamp draw).run Memory.answer store s =
      (.ok (queuedBy attempts).length, attempts.foldl (Attempt.carry stamp) (store, s)) := by
    rw [tick, Procedure.run_bind, Procedure.run_ask, Memory.answer]
    dsimp only
    rw [Procedure.run_bind, fireEach_run hnames, Nat.zero_add, queuedBy_eq, List.length_map,
      ← List.countP_eq_length_filter]
    rfl
  have hlocals := carryAll_attempted stamp attempts (store, s)
  obtain ⟨added, hadded, hstores⟩ := carryAll_messages stamp attempts (store, s)
  obtain ⟨events, hevents, -, hjobs⟩ := tick_queues now stamp draw store s
  rw [hrun] at hevents hjobs
  have hsent : events = attempts.map Attempt.event := by
    rw [hlocals] at hevents
    exact (List.append_cancel_left hevents).symm
  refine ⟨attempts, ?_⟩
  rw [hrun]
  exact {
    due := (plan_due _ 0).trans (List.filter_congr fun p _ => s.isSome_candidate? p.1 p.2)
    once := honce
    decided := by
      intro a ha
      obtain ⟨job, hcandidate, hverdict⟩ := plan_decided a ha
      obtain ⟨hkept, hrunning, hunfired⟩ := candidate?_eq_some_iff.mp hcandidate
      exact ⟨job, hkept, hrunning, hunfired, hverdict⟩
    events := by rw [hlocals]; rfl
    messages := ⟨added, hadded, hstores⟩
    jobs := by
      rw [hjobs, hsent]
      apply List.map_congr_left
      intro j _
      have hqueued := once_filter honce (·.isStored)
      rw [← queuedBy_eq] at hqueued
      exact foldl_noted JobRecord.name JobRecord.markFired (fun _ _ => rfl) hqueued j
    locals := by
      rw [hlocals]
      apply List.map_congr_left
      intro j _
      exact foldl_noted LocalJob.name (fun j slot => { j with lastFiredSlot := some slot })
        (fun _ _ => rfl) (once_filter honce _) j
    handles := by rw [hlocals]; exact ⟨rfl, rfl⟩
    result := rfl
    grown := by
      rw [hadded, List.length_append, queuedBy_eq, List.length_map, hstores.length_eq] }

/-! ## The tick after it -/

theorem mem_of_lookup {fired : List (String × Instant)} {name : String} {slot : Instant}
    (h : fired.lookup name = some slot) : (name, slot) ∈ fired := by
  obtain ⟨before, after, rfl, -⟩ := List.lookup_eq_some_iff.mp h
  simp

theorem lookup_of_mem {fired : List (String × Instant)} (hnames : (fired.map (·.1)).Nodup)
    {p : String × Instant} (hp : p ∈ fired) : fired.lookup p.1 = some p.2 := by
  cases hlookup : fired.lookup p.1 with
  | none => simpa using List.lookup_eq_none_iff.mp hlookup p hp
  | some slot => rw [← List.inj_on_of_nodup_map hnames (mem_of_lookup hlookup) hp rfl]

theorem queuedBy_subset (attempts : List Attempt) : queuedBy attempts ⊆ settled attempts := by
  rw [queuedBy_eq, settled]
  apply List.map_subset
  intro a ha
  obtain ⟨ha, hstored⟩ := List.mem_filter.mp ha
  refine List.mem_filter.mpr ⟨ha, ?_⟩
  cases hverdict : a.verdict <;> simp [Attempt.isStored, Attempt.isRefused, hverdict] at hstored ⊢

theorem lookup_settled {attempts : List Attempt} (honce : (attempts.map (·.job)).Nodup)
    {a : Attempt} (ha : a ∈ attempts) :
    ((settled attempts).lookup a.job).isNone = a.isRefused := by
  cases hrefused : a.isRefused with
  | false =>
      have hmem : a.due ∈ settled attempts :=
        List.mem_map_of_mem (List.mem_filter.mpr ⟨ha, by simp [hrefused]⟩)
      have hlookup := lookup_of_mem (once_filter honce _) hmem
      simp [show (settled attempts).lookup a.job = some a.slot from hlookup]
  | true =>
      rw [Option.isNone_iff_eq_none, List.lookup_eq_none_iff]
      intro p hp
      obtain ⟨b, hb, rfl⟩ := List.mem_map.mp hp
      obtain ⟨hb, hsettled⟩ := List.mem_filter.mp hb
      have hne : a.job ≠ b.job := by
        intro heq
        rw [← List.inj_on_of_nodup_map honce ha hb heq, hrefused] at hsettled
        cases hsettled
      simpa [Attempt.due] using hne

/-- Of jobs whose due slots were noted, those are due whose slots were not. -/
theorem dueSlots_marked {jobs : List JobRecord} {fired : List (String × Instant)}
    (hnames : (jobs.map (·.name)).Nodup) (hfired : ∀ p ∈ fired, p ∈ dueSlots jobs now) :
    dueSlots (jobs.map fun j => (fired.lookup j.name).elim j j.markFired) now =
      (dueSlots jobs now).filter fun p => (fired.lookup p.1).isNone := by
  rw [dueSlots, dueSlots, List.filterMap_map, List.filter_filterMap]
  apply List.filterMap_congr
  intro j hj
  cases hlookup : fired.lookup j.name with
  | none =>
      simp only [Function.comp_apply, hlookup, Option.elim_none]
      split
      · rfl
      · split
        · rfl
        · rename_i cs _
          cases j.dueSlot? cs now <;> simp [hlookup, Option.filter_some]
  | some slot =>
      have hdue := hfired _ (mem_of_lookup hlookup)
      obtain ⟨other, hother, hname, hactive, cs, hparse, hslot⟩ := JobRecord.mem_dueSlots.mp hdue
      obtain rfl := List.inj_on_of_nodup_map hnames hother hj hname
      have hnone := JobRecord.dueSlot?_markFired (Cron.Schedule.parse_ordered hparse) hslot
      have hactive' : (other.markFired slot).isActive = true := hactive
      have hparse' : Cron.Schedule.parse (other.markFired slot).cron = .ok cs := hparse
      simp [hlookup, hactive', hparse', hnone, hactive, hparse, hslot, Option.filter_some]

variable {attempts retried : List Attempt}
  {after after' : Except QueueError Nat × Memory × Scheduler}

theorem Ticked.due_candidates (h : Ticked now stamp store s attempts after) :
    attempts.map Attempt.due =
      (dueSlots store.jobs now).filter fun p => (s.candidate? p.1 p.2).isSome :=
  h.due.trans (List.filter_congr fun p _ => (s.isSome_candidate? p.1 p.2).symm)

theorem Ticked.mem_due (h : Ticked now stamp store s attempts after) {f : Attempt → Bool}
    {p : String × Instant} (hp : p ∈ (attempts.filter f).map Attempt.due) :
    p ∈ dueSlots store.jobs now := by
  have hall : p ∈ attempts.map Attempt.due := List.filter_sublist.map _ |>.subset hp
  rw [h.due] at hall
  exact List.mem_of_mem_filter hall

theorem Ticked.keys (h : Ticked now stamp store s attempts after) :
    ∃ added, after.2.1.messages = store.messages ++ added ∧
      ∀ m ∈ added, ∃ p ∈ dueSlots store.jobs now, m.job = some ⟨p.1, p.2⟩ := by
  obtain ⟨added, hadded, hstores⟩ := h.messages
  refine ⟨added, hadded, fun m hm => ?_⟩
  obtain ⟨i, hi, rfl⟩ := List.mem_iff_getElem.mp hm
  have hi' : i < (attempts.filter (·.isStored)).length := hstores.length_eq ▸ hi
  exact ⟨_, h.mem_due (List.mem_map_of_mem (List.getElem_mem hi')), (hstores.get hi' hi).key⟩

theorem Ticked.candidate? (h : Ticked now stamp store s attempts after)
    (hnames : ((dueSlots store.jobs now).map (·.1)).Nodup) {p : String × Instant}
    (hp : p ∈ dueSlots store.jobs now) :
    (after.2.2.candidate? p.1 p.2).isSome =
      ((s.candidate? p.1 p.2).isSome && ((settled attempts).lookup p.1).isNone) := by
  have hfind : after.2.2.find? p.1 = (s.find? p.1).map fun j =>
      ((settled attempts).lookup j.name).elim j fun slot =>
        { j with lastFiredSlot := some slot } := by
    rw [find?, h.locals, List.find?_map, find?]
    congr 2
    funext j
    rw [Function.comp_apply]
    cases (settled attempts).lookup j.name <;> rfl
  have hstopped (handle : Nat) : after.2.2.isStopped handle = s.isStopped handle := by
    rw [isStopped, h.handles.2, isStopped]
  rw [Scheduler.candidate?, Scheduler.candidate?, hfind]
  cases hlocal : s.find? p.1 with
  | none => rfl
  | some j =>
      have hname : j.name = p.1 := by simpa using List.find?_some hlocal
      cases hlookup : (settled attempts).lookup p.1 with
      | none => simp [hname, hlookup, hstopped]
      | some slot =>
          -- at most one slot of the name is due, so the one noted is the one asked for
          have hslot : slot = p.2 := by
            rw [← List.inj_on_of_nodup_map hnames (h.mem_due (mem_of_lookup hlookup)) hp rfl]
          simp [hname, hlookup, hstopped, hslot]

/-- The attempts of a second tick at the same time are for the jobs whose factories refused. -/
theorem Ticked.again (hsorted : JobRecord.Sorted store.jobs)
    (h : Ticked now stamp store s attempts after) {stamp' : Instant}
    (h' : Ticked now stamp' after.2.1 after.2.2 retried after') :
    retried.map Attempt.due = (attempts.filter (·.isRefused)).map Attempt.due := by
  have hnames := hsorted.names.sublist (JobRecord.dueSlots_names store.jobs now)
  have hqueued : ∀ p ∈ queuedBy attempts, p ∈ dueSlots store.jobs now := by
    rw [queuedBy_eq]
    exact fun p hp => h.mem_due hp
  have hunqueued (name : String) (hnone : ((settled attempts).lookup name).isNone = true) :
      ((queuedBy attempts).lookup name).isNone = true := by
    simp only [Option.isNone_iff_eq_none, List.lookup_eq_none_iff] at hnone ⊢
    exact fun q hq => hnone q (queuedBy_subset attempts hq)
  have hrefused (a : Attempt) (ha : a ∈ attempts) :
      ((settled attempts).lookup a.job).isNone = a.isRefused := lookup_settled h.once ha
  rw [h'.due_candidates, h.jobs, dueSlots_marked hsorted.names hqueued, List.filter_filter]
  have hretried : (dueSlots store.jobs now).filter (fun p =>
      (after.2.2.candidate? p.1 p.2).isSome && ((queuedBy attempts).lookup p.1).isNone) =
      (attempts.map Attempt.due).filter fun p => ((settled attempts).lookup p.1).isNone := by
    rw [h.due_candidates, List.filter_filter]
    apply List.filter_congr
    intro p hp
    rw [h.candidate? hnames hp]
    cases hnone : ((settled attempts).lookup p.1).isNone with
    | false => simp
    | true => simp [hunqueued p.1 hnone]
  rw [hretried, List.filter_map]
  congr 1
  exact List.filter_congr hrefused

/-- A tick does what its attempts do, one at each due slot whose job is kept, not stopped and not
fired for it, and each decided by the factory and by the messages before the tick. A second tick at
the same time attempts just those that the factories refused. -/
theorem tick_exact (calls : List Call) (s : Scheduler) (now stamp : Instant)
    (draw : Nat → MessageId) :
    let store := Memory.after calls
    let after := (tick now stamp draw).run Memory.answer store s
    ∃ attempts, Ticked now stamp store s attempts after ∧
      ∀ (stamp' : Instant) (draw' : Nat → MessageId), ∃ retried,
        Ticked now stamp' after.2.1 after.2.2 retried
          ((tick now stamp' draw').run Memory.answer after.2.1 after.2.2) ∧
        retried.map Attempt.due = (attempts.filter (·.isRefused)).map Attempt.due := by
  intro store after
  have hsorted : JobRecord.Sorted store.jobs := Memory.after_sorted calls
  obtain ⟨attempts, hticked⟩ := tick_ticked hsorted now stamp draw s
  refine ⟨attempts, hticked, fun stamp' draw' => ?_⟩
  have hsorted' : JobRecord.Sorted after.2.1.jobs := by
    rw [hticked.jobs]
    refine hsorted.map fun j => ?_
    cases (queuedBy attempts).lookup j.name <;> rfl
  obtain ⟨retried, hretried⟩ := tick_ticked hsorted' now stamp' draw' after.2.2
  exact ⟨retried, hretried, hticked.again hsorted hretried⟩

/-- Of three jobs that are due, one is queued, the slot of one is taken by a message that waits, and
the factory of one refuses, which is asked again by the next tick. -/
theorem tick_exact_mixed :
    let accept : PayloadFactory := fun _ => .ok { payload := [1] }
    let refuse : PayloadFactory := fun _ => .error (.config (.described "no template"))
    let record (name : String) : Call :=
      .saveJob (JobRecord.make name "0 * * * * *" none ⟨30, 0, by decide⟩)
    let waiting : NewMessage := NewMessage.forJob { payload := [0] } "mail" .epoch
    let store := Memory.after
      [record "backup", record "mail", record "report", .insert waiting ⟨.ofNat 1⟩ .epoch]
    let s := (((make 8).keepLocal "backup" accept none).keepLocal "mail" accept none).keepLocal
      "report" refuse none
    let now : Instant := ⟨60, 0, by decide⟩
    let after := (tick now .epoch fun _ => ⟨.ofNat 2⟩).run Memory.answer store s
    let again := (tick now .epoch fun _ => ⟨.ofNat 3⟩).run Memory.answer after.2.1 after.2.2
    after.1 = .ok 1 ∧
      (∃ id, after.2.2.events.pending = [.queued "backup" now id,
        .nonFatal "mail" "message for mail@1970-01-01T00:01:00Z already enqueued",
        .exception "report" "configuration error: no template"]) ∧
      ∃ retried, Ticked now .epoch after.2.1 after.2.2 retried again ∧
        retried.map Attempt.due = [("report", now)] := by
  intro accept refuse record waiting store s now after again
  obtain ⟨attempts, hticked, hagain⟩ := tick_exact
    [record "backup", record "mail", record "report", .insert waiting ⟨.ofNat 1⟩ .epoch]
    s now .epoch fun _ => ⟨.ofNat 2⟩
  have hverdict {a : Attempt} (ha : a ∈ attempts) {kept : LocalJob}
      (hkept : s.find? a.job = some kept) :
      a.verdict = .of store.messages kept.factory ⟨a.job, a.slot⟩ now := by
    obtain ⟨job, hjob, -, -, hdecided⟩ := hticked.decided a ha
    obtain rfl := Option.some.inj (hjob.symm.trans hkept)
    exact hdecided
  have hdue : attempts.map Attempt.due = [("backup", now), ("mail", now), ("report", now)] :=
    hticked.due.trans (by decide +kernel)
  have hparts {a : Attempt} {p : String × Instant} (h : a.due = p) :
      ∃ id verdict, a = ⟨p.1, p.2, id, verdict⟩ :=
    ⟨a.id, a.verdict, h ▸ rfl⟩
  obtain ⟨_, later, rfl, hfirst, hlater⟩ := List.map_eq_cons_iff.mp hdue
  obtain ⟨_, last, rfl, hsecond, hlast⟩ := List.map_eq_cons_iff.mp hlater
  obtain ⟨_, rest, rfl, hthird, hrest⟩ := List.map_eq_cons_iff.mp hlast
  obtain rfl := List.map_eq_nil_iff.mp hrest
  obtain ⟨id, backup, rfl⟩ := hparts hfirst
  obtain ⟨_, mail, rfl⟩ := hparts hsecond
  obtain ⟨_, report, rfl⟩ := hparts hthird
  have hfree : store.messages.any (·.blocks ⟨"backup", now⟩) = false := by decide +kernel
  have hblocked : store.messages.any (·.blocks ⟨"mail", now⟩) = true := by decide +kernel
  obtain rfl : backup = .stored { payload := [1] } :=
    (hverdict (.head _) rfl).trans (by simp [Verdict.of, accept, hfree])
  obtain rfl : mail = .taken :=
    (hverdict (.tail _ (.head _)) rfl).trans (by simp [Verdict.of, accept, hblocked])
  obtain rfl : report = .refused (.config (.described "no template")) :=
    hverdict (.tail _ (.tail _ (.head _))) rfl
  have htext : (⟨"mail", now⟩ : JobSlotKey).text = "mail@1970-01-01T00:01:00Z" := by decide +kernel
  have hevents := congrArg Subscription.pending hticked.events
  simp only [List.map_cons, List.map_nil, Attempt.event, htext] at hevents
  obtain ⟨retried, hretried, hdues⟩ := hagain .epoch fun _ => ⟨.ofNat 3⟩
  exact ⟨hticked.result, ⟨id, hevents⟩, retried, hretried, hdues⟩

end Scheduler

end WorkQueue
