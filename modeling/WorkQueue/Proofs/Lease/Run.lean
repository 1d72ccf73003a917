import Mathlib
import WorkQueue.Proofs.Lease.Lawful

/-! # Runs of coordinators and monitors

Any number of coordinators and monitors work on one store. Their procedures are interleaved call by
call with each other and with calls from elsewhere, and each may stop for good between two calls. A
trace keeps of a run what its calls did to the messages.
-/

namespace WorkQueue

/-- What a coordinator or a monitor sets out to do, or a call from elsewhere. -/
inductive Errand where
  | call (c : Call)
  | claim (token : Owner) (routes : List String)
  | renew (lease : Lease)
  | commit (lease : Lease)
  | fail (lease : Lease) (reason : String)
  | renewLocal
  | recover (config : MonitorConfig)
  | purge
  | requeue (id : MessageId)

namespace Errand

/-- The steps of an errand that read the clock at its start. -/
def procedure (now : Instant) : Errand → Procedure Registry Unit
  | call c => do let _ ← Procedure.ask c
  | claim token routes => do let _ ← Coordinator.claim token routes now
  | renew lease => do let _ ← Coordinator.renew lease now
  | commit lease => do let _ ← Coordinator.commit lease
  | fail lease reason => do let _ ← Coordinator.fail lease reason
  | renewLocal => do let _ ← Monitor.renewLocal now
  | recover config => do let _ ← Monitor.recover config now
  | purge => do let _ ← Monitor.purge now
  | requeue id => do let _ ← Monitor.requeue id

/-- Monitors have one of the allowed configurations, and leases are claimed, renewed and taken back
by coordinators and monitors only. -/
def Allowed (allowed : MonitorConfig → Prop) : Errand → Prop
  | call c => c.snapshot? = none ∧ c.reading? = none
  | recover config => allowed config
  | _ => True

end Errand

/-- A store with the procedures that are under way on it. -/
structure World where
  store : Backend
  clock : Instant
  /-- The earlier readings of the clock, the latest first. -/
  past : List Instant
  tasks : List (Procedure Registry Unit)
  /-- The calls made so far, oldest first. -/
  log : List Entry

namespace World

/-- All readings of the clock, the latest first. -/
def readings (w : World) : List Instant := w.clock :: w.past

def start (store : Backend) (clock : Instant) : World := ⟨store, clock, [], [], []⟩

/-- A step of a run. The registry that a task sees is any, because the workers of its process change
it as they like. -/
inductive Step (allowed : MonitorConfig → Prop) : World → World → Prop
  | tick {w : World} {now : Instant} :
      Step allowed w { w with clock := now, past := w.readings }
  | begin {w : World} {errand : Errand} (allow : errand.Allowed allowed) :
      Step allowed w { w with tasks := errand.procedure w.clock :: w.tasks }
  | call {w : World} {before after : List (Procedure Registry Unit)} {c : Call}
      {next : c.Reply → Procedure Registry Unit} (task : w.tasks = before ++ .call c next :: after)
      (fresh : c.Fresh w.log) :
      Step allowed w { w with
        store := (w.store.answer c).2
        log := w.log ++ [⟨c, (w.store.answer c).1⟩]
        tasks := before ++ next (w.store.answer c).1 :: after }
  | update {w : World} {before after : List (Procedure Registry Unit)} {f : Registry → Registry}
      {next : Registry → Procedure Registry Unit}
      (task : w.tasks = before ++ .update f next :: after) (registry : Registry) :
      Step allowed w { w with tasks := before ++ next registry :: after }

/-- The worlds that steps lead to from an empty store. -/
inductive Reachable (allowed : MonitorConfig → Prop) : World → Prop
  | memory (clock : Instant) : Reachable allowed (start (.memory .empty) clock)
  | table (clock : Instant) : Reachable allowed (start (.table .empty) clock)
  | step {w w' : World} (reachable : Reachable allowed w) (step : Step allowed w w') :
      Reachable allowed w'

/-- If the store is a table, all times of the calls have years of four digits. -/
def Dated (w : World) : Prop := ∀ e ∈ w.log, w.store.Takes e.call

end World

/-! ## Traces -/

/-- Readings of the clock and calls, with what the calls did to the messages. -/
inductive Trace (allowed : MonitorConfig → Prop) (cut : Instant → Instant) :
    List Instant → List Entry → Memory → Prop
  | start (now : Instant) : Trace allowed cut [now] [] .empty
  | tick {readings : List Instant} {log : List Entry} {s : Memory} (now : Instant)
      (trace : Trace allowed cut readings log s) : Trace allowed cut (now :: readings) log s
  | call {readings : List Instant} {log : List Entry} {s s' : Memory} {c : Call} {r : c.Reply}
      (trace : Trace allowed cut readings log s) (fresh : c.Fresh log)
      (lawful : c.Lawful allowed readings log) (effect : Effect cut s c r s') :
      Trace allowed cut readings (log ++ [⟨c, r⟩]) s'

variable {allowed : MonitorConfig → Prop} {cut : Instant → Instant} {readings : List Instant}
  {log : List Entry} {s : Memory}

namespace Trace

theorem sound (h : Trace allowed cut readings log s) : s.Sound log := by
  induction h with
  | start => exact .empty
  | tick _ _ ih => exact ih
  | call _ hfresh hlawful heffect ih => exact ih.step (hlawful.admissible hfresh) heffect

theorem leaseExpired (h : Trace allowed cut readings log s) :
    ∀ e ∈ log, ∀ cutoff, e.call = .scan cutoff → ∀ m ∈ e.found,
      m.leaseExpired (cut cutoff) = true := by
  induction h with
  | start => exact fun e he => by cases he
  | tick _ _ ih => exact ih
  | @call _ log s s' c r _ _ _ heffect ih =>
      intro e he cutoff hscan m hm
      rcases List.mem_append.mp he with he | he
      · exact ih e he cutoff hscan m hm
      · obtain rfl := List.mem_singleton.mp he
        cases heffect with
        | kept _ _ _ hfound =>
            rw [hfound] at hm
            cases hm
        | scanned =>
            obtain rfl := Call.scan.inj hscan
            exact (List.mem_filter.mp hm).2
        | added | purged => cases hm
        | changed _ hchange => cases hchange <;> cases hm

end Trace

theorem log_cases {earlier later : List Entry} {e last : Entry}
    (h : log ++ [last] = earlier ++ e :: later) :
    later = [] ∧ log = earlier ∧ last = e ∨
      ∃ before, later = before ++ [last] ∧ log = earlier ++ e :: before := by
  rcases later.eq_nil_or_concat' with rfl | ⟨before, a, rfl⟩
  · obtain ⟨rfl, hlast⟩ := List.append_inj' h rfl
    exact .inl ⟨rfl, rfl, List.head_eq_of_cons_eq hlast⟩
  · rw [← List.cons_append, ← List.append_assoc] at h
    obtain ⟨rfl, hlast⟩ := List.append_inj' h rfl
    exact .inr ⟨before, by rw [List.head_eq_of_cons_eq hlast], rfl⟩

/-- A store holds the messages that the trace of a run leads to. -/
structure Traced (allowed : MonitorConfig → Prop) (cut : Instant → Instant) (store : Backend)
    (readings : List Instant) (log : List Entry) (s : Memory) : Prop where
  holds : store.Holds cut s
  keeps : store.Keeps log s
  trace : Trace allowed cut readings log s

/-- The store shows the message. -/
def Backend.Shows (store : Backend) (m : Message) : Prop :=
  (store.answer (.get m.id)).1 = .ok (some m)

namespace Traced

variable {store : Backend} {c : Call} {m : Message}

theorem memory (clock : Instant) : Traced allowed id (.memory .empty) [clock] [] .empty :=
  ⟨.memory, fun t ht => (by cases ht), .start clock⟩

theorem table (clock : Instant) :
    Traced allowed Instant.micros (.table .empty) [clock] [] .empty :=
  ⟨.table rfl, fun _ _ => .empty, .start clock⟩

theorem tick (h : Traced allowed cut store readings log s) (now : Instant) :
    Traced allowed cut store (now :: readings) log s :=
  ⟨h.holds, h.keeps, h.trace.tick now⟩

theorem call (h : Traced allowed cut store readings log s) (hfresh : c.Fresh log)
    (hlawful : c.Lawful allowed readings log) (htakes : (store.answer c).2.Takes c) :
    ∃ s', Effect cut s c (store.answer c).1 s' ∧
      Traced allowed cut (store.answer c).2 readings (log ++ [⟨c, (store.answer c).1⟩]) s' := by
  obtain ⟨s', heffect, hholds, hkeeps⟩ := h.holds.answer h.trace.sound h.keeps
    (hlawful.admissible hfresh) (Backend.takes_answer htakes)
  exact ⟨s', heffect, hholds, hkeeps, h.trace.call hfresh hlawful heffect⟩

theorem get (h : Traced allowed cut store readings log s) (id : MessageId) :
    (store.answer (.get id)).1 = .ok (s.find? id) := h.holds.get h.keeps id

theorem shows_iff (h : Traced allowed cut store readings log s) :
    store.Shows m ↔ m ∈ s.messages := by
  rw [Backend.Shows, h.get]
  constructor
  · intro hm
    exact (Memory.find?_some (Except.ok.inj hm)).1
  · intro hm
    rw [h.trace.sound.distinct.find?_of_mem hm]

theorem answer_same (h : Traced allowed cut store readings log s) {r : c.Reply}
    (hagrees : ∀ t : Table, s.Recorded log → t.Agrees s c)
    (hreply : s.answerThrough cut c = (r, s)) : store.answer c = (r, store) := by
  have hanswer := h.holds.answer_same (fun t ht => hagrees t (h.keeps t ht))
    (congrArg Prod.snd hreply)
  rw [hreply] at hanswer
  exact hanswer

end Traced

namespace Errand

theorem procedure_obeys {errand : Errand} (h : errand.Allowed allowed) {now : Instant}
    (hnow : now ∈ readings) : (errand.procedure now).Obeys allowed readings log := by
  have done {α : Type} {p : Procedure Registry α} (hp : p.Obeys allowed readings log) :
      (p >>= fun _ => pure ()).Obeys allowed readings log :=
    hp.bind fun _ _ _ => trivial
  cases errand with
  | call c => exact done (Procedure.obeys_ask (.silent h.1 h.2))
  | claim token routes => exact done (Coordinator.claim_obeys token routes hnow)
  | renew lease => exact done (Coordinator.renew_obeys lease hnow)
  | commit lease => exact done (Coordinator.commit_obeys lease)
  | fail lease reason => exact done (Coordinator.fail_obeys lease reason)
  | renewLocal => exact done (Monitor.renewLocal_obeys hnow)
  | recover config => exact done (Monitor.recover_obeys h hnow)
  | purge => exact done (Monitor.purge_obeys now)
  | requeue id => exact done (Monitor.requeue_obeys id)

end Errand

namespace World

variable {w w' : World}

theorem Step.dated (h : Step allowed w w') (hdated : w'.Dated) : w.Dated := by
  cases h with
  | call =>
      intro e he
      exact Backend.takes_answer (hdated e (List.mem_append_left _ he))
  | _ => exact hdated

/-- The run that led to a world has a trace, and the tasks under way go on lawfully. -/
theorem Reachable.trace (h : Reachable allowed w) (hdated : w.Dated) :
    (∃ cut s, Traced allowed cut w.store w.readings w.log s) ∧
      ∀ p ∈ w.tasks, p.Obeys allowed w.readings w.log := by
  induction h with
  | memory clock => exact ⟨⟨id, .empty, .memory clock⟩, fun p hp => by cases hp⟩
  | table clock => exact ⟨⟨Instant.micros, .empty, .table clock⟩, fun p hp => by cases hp⟩
  | @step w w' _ hstep ih =>
      obtain ⟨⟨cut, s, htraced⟩, htasks⟩ := ih (hstep.dated hdated)
      cases hstep with
      | @tick now =>
          refine ⟨⟨cut, s, htraced.tick now⟩, fun p hp => (htasks p hp).mono ?_ ?_⟩
          · exact List.subset_cons_self _ _
          · exact List.Subset.refl _
      | begin hallow =>
          refine ⟨⟨cut, s, htraced⟩, fun p hp => ?_⟩
          rcases List.mem_cons.mp hp with rfl | hp
          · exact Errand.procedure_obeys hallow List.mem_cons_self
          · exact htasks p hp
      | @call before after c next htask hfresh =>
          have hcall := htasks (.call c next) (htask ▸ List.mem_append_right _ List.mem_cons_self)
          obtain ⟨s', -, htraced'⟩ := htraced.call hfresh hcall.1
            (hdated _ (List.mem_append_right _ (List.mem_singleton_self _)))
          refine ⟨⟨cut, s', htraced'⟩, fun p hp => ?_⟩
          have hgrown : w.log ⊆ w.log ++ [⟨c, (w.store.answer c).1⟩] := List.subset_append_left _ _
          have hold : p ∈ w.tasks → p.Obeys allowed w.readings
              (w.log ++ [⟨c, (w.store.answer c).1⟩]) := fun hp =>
            (htasks p hp).mono (List.Subset.refl _) hgrown
          rw [htask] at hold
          rcases List.mem_append.mp hp with hp | hp
          · exact hold (List.mem_append_left _ hp)
          · rcases List.mem_cons.mp hp with rfl | hp
            · exact hcall.2 _
            · exact hold (List.mem_append_right _ (List.mem_cons_of_mem _ hp))
      | @update before after f next htask registry =>
          have hupdate := htasks (.update f next)
            (htask ▸ List.mem_append_right _ List.mem_cons_self)
          refine ⟨⟨cut, s, htraced⟩, fun p hp => ?_⟩
          rw [htask] at htasks
          rcases List.mem_append.mp hp with hp | hp
          · exact htasks p (List.mem_append_left _ hp)
          · rcases List.mem_cons.mp hp with rfl | hp
            · exact hupdate registry
            · exact htasks p (List.mem_append_right _ (List.mem_cons_of_mem _ hp))

/-- A step makes no call, or one that does to the messages what it does in memory. -/
theorem Reachable.step_traced (h : w.Reachable allowed) (hstep : Step allowed w w')
    (hdated : w'.Dated) :
    ∃ cut s s', Traced allowed cut w.store w.readings w.log s ∧
      Traced allowed cut w'.store w'.readings w'.log s' ∧
      (w'.log = w.log ∧ s' = s ∨ ∃ c r, w'.log = w.log ++ [⟨c, r⟩] ∧ c.Admissible w.log ∧
        Effect cut s c r s') := by
  obtain ⟨⟨cut, s, htraced⟩, htasks⟩ := h.trace (hstep.dated hdated)
  cases hstep with
  | @tick now => exact ⟨cut, s, s, htraced, htraced.tick now, .inl ⟨rfl, rfl⟩⟩
  | begin => exact ⟨cut, s, s, htraced, htraced, .inl ⟨rfl, rfl⟩⟩
  | update => exact ⟨cut, s, s, htraced, htraced, .inl ⟨rfl, rfl⟩⟩
  | @call before after c next htask hfresh =>
      have hcall := htasks (.call c next) (htask ▸ List.mem_append_right _ List.mem_cons_self)
      obtain ⟨s', heffect, htraced'⟩ := htraced.call hfresh hcall.1
        (hdated _ (List.mem_append_right _ (List.mem_singleton_self _)))
      exact ⟨cut, s, s', htraced, htraced',
        .inr ⟨c, _, rfl, hcall.1.admissible hfresh, heffect⟩⟩

end World

end WorkQueue
