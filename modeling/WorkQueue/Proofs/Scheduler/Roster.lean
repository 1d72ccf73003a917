import Mathlib
import WorkQueue.Proofs.Job.Due
import WorkQueue.Proofs.Scheduler.Fleet
import WorkQueue.Proofs.Store.Kept

/-! # Schedulers side by side

Ticks and additions of any number of schedulers are under way on one store, interleaved call by call
with each other and with calls on messages. An addition saves the slot that it loaded, and a tick
notes a slot that it reckoned from an earlier reading of the clock, whatever was written meanwhile.
So the slot that fired last can be lost, but only by such an overtaken write.
-/

namespace WorkQueue

/-- A tick or an addition of a scheduler that is under way. -/
structure Chore where
  /-- The number of the scheduler. -/
  scheduler : Nat
  /-- The store as it was when the chore began. -/
  begun : Backend
  /-- The store as it was when the chore loaded the jobs, once it has. -/
  loaded : Option Backend
  rest : Procedure Scheduler (Except QueueError Nat)

/-- The chore with what is left of it after one more step on the store. -/
def Chore.after (d : Chore) (store : Backend) (rest : Procedure Scheduler (Except QueueError Nat)) :
    Chore :=
  { d with
    rest
    loaded := match d.rest with
      | .call .loadJobs _ => some store
      | _ => d.loaded }

/-- A call that writes the slot of the name comes in time: an addition saves the slot that it loaded
if this is still there, and a tick notes its slot if the one before it is still there that was there
when the tick read the clock. -/
def Call.Timely (name : String) (begun : Backend) (loaded : Option Backend) (store : Backend) :
    Call → Prop
  | saveJob job => job.name = name → ∃ b ∈ loaded, b.lastSlot? name = store.lastSlot? name
  | recordFired job _ => job = name → begun.lastSlot? name = store.lastSlot? name
  | _ => True

instance (name : String) (begun : Backend) (loaded : Option Backend) (store : Backend) (c : Call) :
    Decidable (c.Timely name begun loaded store) := by
  cases c with
  | saveJob job => exact inferInstanceAs (Decidable (_ → ∃ b ∈ loaded, _))
  | recordFired => exact inferInstanceAs (Decidable (_ → _))
  | _ => exact .isTrue trivial

def Chore.Timely (name : String) (store : Backend) (d : Chore) : Prop :=
  match d.rest with
  | .call c _ => c.Timely name d.begun d.loaded store
  | _ => True

instance (name : String) (store : Backend) (d : Chore) : Decidable (d.Timely name store) := by
  unfold Chore.Timely
  split <;> infer_instance

/-- A store with the schedulers that work on it and what they have under way. -/
structure Roster where
  store : Backend
  clock : Instant
  schedulers : List Scheduler
  chores : List Chore

namespace Roster

def start (store : Backend) (schedulers : List Scheduler) (clock : Instant) : Roster :=
  ⟨store, clock, schedulers, []⟩

def begin (r : Roster) (i : Nat) (p : Procedure Scheduler (Except QueueError Nat)) : Roster :=
  { r with chores := r.chores ++ [⟨i, r.store, none, p⟩] }

/-- Carry out one step of a chore. -/
def advance (r : Roster) (k : Nat) : Roster :=
  match r.chores[k]? with
  | none => r
  | some d =>
    match r.schedulers[d.scheduler]? with
    | none => r
    | some s =>
      let (rest, store, s) := d.rest.step Backend.answer r.store s
      { r with
        store
        schedulers := r.schedulers.set d.scheduler s
        chores := r.chores.set k (d.after r.store rest) }

/-- A step of a run in which jobs are added with allowed expressions and chores advance as they are
admitted to. A tick reads the clock when it begins, and an addition at some time after. Outside of
its chores a scheduler changes as it may. -/
inductive Step (allowed : String → String → Prop) (admitted : Roster → Nat → Prop) (r : Roster) :
    Roster → Prop
  | wait {now : Instant} (forward : r.clock ≤ now) : Step allowed admitted r { r with clock := now }
  | tick (i : Nat) (stamp : Instant) (draw : Nat → MessageId) :
      Step allowed admitted r (r.begin i (Scheduler.tick r.clock stamp draw))
  | add (i : Nat) {name cron : String} (allow : allowed name cron) (factory : PayloadFactory)
      (window : Option Duration) {reading : Instant} (forward : r.clock ≤ reading) :
      Step allowed admitted r (r.begin i (Scheduler.addJob name cron factory window reading))
  | advance (k : Nat) (granted : admitted r k) : Step allowed admitted r (r.advance k)
  | change (i : Nat) (s : Scheduler) :
      Step allowed admitted r { r with schedulers := r.schedulers.set i s }
  | call {c : Call} (messages : c.isJobCall = false) :
      Step allowed admitted r { r with store := (r.store.answer c).2 }

/-- The rosters that steps lead to from an empty store, in whatever order chores advance. -/
inductive Reachable (allowed : String → String → Prop) : Roster → Prop
  | start {store : Backend} (empty : store = .memory .empty ∨ store = .table .empty)
      (schedulers : List Scheduler) (clock : Instant) :
      Reachable allowed (start store schedulers clock)
  | step {r r' : Roster} (reachable : Reachable allowed r)
      (step : Step allowed (fun _ _ => True) r r') : Reachable allowed r'

/-- The next call of a chore comes in time. -/
def Timely (name : String) (r : Roster) (k : Nat) : Prop :=
  ∀ d ∈ r.chores[k]?, d.Timely name r.store

instance (name : String) (r : Roster) (k : Nat) : Decidable (Timely name r k) :=
  inferInstanceAs (Decidable (∀ d ∈ _, _))

end Roster

/-! ## Slots of fire times -/

/-- The slot of a fire time of the expression, up to now. -/
def Cron.Reached (cron : String) (now slot : Instant) : Prop :=
  ∃ s fire, Schedule.parse cron = .ok s ∧ s.Fires fire ∧ fire ≤ now ∧ slot = s.slotOf fire

/-- The slot of the latest fire time of the expression, up to now. -/
def Cron.Current (cron : String) (now slot : Instant) : Prop :=
  ∃ s fire, Schedule.parse cron = .ok s ∧ s.Latest now fire ∧ slot = s.slotOf fire

namespace Cron

variable {cron : String} {now now' slot old : Instant}

theorem Reached.later (h : Reached cron now slot) (hle : now ≤ now') : Reached cron now' slot := by
  obtain ⟨s, fire, hparse, hfires, hreached, heq⟩ := h
  exact ⟨s, fire, hparse, hfires, hreached.trans hle, heq⟩

theorem Reached.exact (h : Reached cron now slot) : slot.Exact := by
  obtain ⟨s, fire, hparse, hfires, -, rfl⟩ := h
  obtain ⟨hseconds, hnanos⟩ := s.granularity.truncate_parts fire
  obtain ⟨hfirst, hlast⟩ := hfires.2.bounds (Schedule.parse_ordered hparse)
  have hbounds : 0 ≤ (s.slotOf fire).seconds ∧ (s.slotOf fire).seconds ≤ fire.seconds := by
    rw [Schedule.slotOf, hseconds]
    cases s.granularity <;> simp only [Granularity.unitSeconds] <;> omega
  have hlastDay : Fields.lastDay = 47846 := by decide
  have hday : 0 ≤ (s.slotOf fire).day ∧ (s.slotOf fire).day ≤ 47846 := by
    rw [Instant.day]
    omega
  have hyear : (s.slotOf fire).date.year = Date.yearOf (s.slotOf fire).day := by
    rw [Instant.date, Date.ofDayNumber_eq]
  have hlow := Date.yearOf_le hday.1
  have hhigh := Date.yearOf_le hday.2
  have h1970 : Date.yearOf 0 = 1970 := by decide
  have h2100 : Date.yearOf 47846 = 2100 := by decide
  refine ⟨⟨by omega, by omega⟩, Instant.eq_of_parts (Instant.micros_seconds _) ?_⟩
  rw [Instant.micros_nanos, Schedule.slotOf, hnanos]

theorem Current.reached (h : Current cron now slot) : Reached cron now slot := by
  obtain ⟨s, fire, hparse, hlatest, heq⟩ := h
  exact ⟨s, fire, hparse, hlatest.fires, hlatest.reached, heq⟩

theorem Current.le (h : Current cron now slot) (hold : Reached cron now old) : old ≤ slot := by
  obtain ⟨s, fire, hparse, hlatest, rfl⟩ := h
  obtain ⟨s', fire', hparse', hfires, hreached, rfl⟩ := hold
  obtain rfl : s' = s := Except.ok.inj (hparse'.symm.trans hparse)
  exact s'.slotOf_le (hlatest.latest fire' hfires hreached)

/-- A job that is kept has the expression, and its slot was reached. -/
def Kept (cron : String) (now : Instant) (kept : Option (String × Option Instant)) : Prop :=
  ∀ p ∈ kept, p.1 = cron ∧ ∀ slot ∈ p.2, Reached cron now slot

variable {kept : Option (String × Option Instant)}

theorem Kept.exact (h : Kept cron now kept) : ∀ p ∈ kept, ∀ slot ∈ p.2, slot.Exact :=
  fun p hp slot hslot => ((h p hp).2 slot hslot).exact

theorem Kept.later (h : Kept cron now kept) (hle : now ≤ now') : Kept cron now' kept := by
  intro p hp
  refine ⟨(h p hp).1, ?_⟩
  intro slot hslot
  exact ((h p hp).2 slot hslot).later hle

end Cron

/-! ## What the store keeps of a name -/

open Cron (Reached Kept)

variable {name cron : String} {now now' : Instant} {b begun : Backend}
  {jobs : List JobRecord} {c : Call} {kept : Option (String × Option Instant)}

namespace Backend

/-- The store keeps the name with the expression, and a slot that fired was reached. -/
structure Follows (name cron : String) (now : Instant) (b : Backend) : Prop where
  names : b.NamesOnce
  kept : ∃ kept, b.KeepsOf name kept ∧ Kept cron now kept

theorem Follows.later (h : b.Follows name cron now) (hle : now ≤ now') :
    b.Follows name cron now' := by
  obtain ⟨hnames, kept, hkept, hreached⟩ := h
  exact ⟨hnames, kept, hkept, hreached.later hle⟩

theorem Follows.reached (h : b.Follows name cron now) {slot : Instant}
    (hslot : b.lastSlot? name = some slot) : Reached cron now slot := by
  obtain ⟨-, kept, hkept, hreached⟩ := h
  rw [hkept.lastSlot? hreached.exact] at hslot
  obtain ⟨p, hp, hslot⟩ := Option.bind_eq_some_iff.mp hslot
  exact (hreached p hp).2 slot hslot

theorem Follows.load (h : b.Follows name cron now) (hload : (b.answer .loadJobs).1 = .ok jobs) :
    (∀ j ∈ jobs, j.name = name → j.cron = cron ∧ j.lastFiredSlot = b.lastSlot? name) ∧
      (jobs.find? (·.name = name)).bind (·.lastFiredSlot) = b.lastSlot? name := by
  obtain ⟨hnames, kept, hkept, hreached⟩ := h
  have hfound := hkept.loaded hnames hreached.exact hload
  have hlast := hkept.lastSlot? hreached.exact
  have hbind : (jobs.find? (·.name = name)).bind (·.lastFiredSlot) = b.lastSlot? name := by
    rw [hlast, ← hfound, JobRecord.keptOf, Option.bind_map]
    rfl
  refine ⟨?_, hbind⟩
  intro j hj hname
  have hfind : jobs.find? (·.name = name) = some j :=
    hname ▸ find?_key_of_mem (k := JobRecord.name) (hnames.loaded hload) hj
  rw [hfind] at hbind
  refine ⟨?_, hbind⟩
  rw [JobRecord.keptOf, hfind] at hfound
  exact (hreached _ hfound.symm).1

end Backend

/-! ## What chores call -/

/-- What a chore calls that began with one store and loaded another: an addition saves the slot that
it loaded, and a tick notes the slot that was current at some time after its beginning. -/
inductive Call.Faithful (name cron : String) (begun : Backend) (loaded : Option Backend)
    (now : Instant) : Call → Prop
  | plain {c : Call} (messages : c.isJobCall = false) : Faithful name cron begun loaded now c
  | save {job : JobRecord} (same : job.name = name → job.cron = cron ∧ ∃ b ∈ loaded,
      b.Follows name cron now ∧ job.lastFiredSlot = b.lastSlot? name) :
      Faithful name cron begun loaded now (.saveJob job)
  | record {job : String} {slot : Instant} (current : job = name → ∃ reading ≤ now,
      begun.Follows name cron reading ∧ Cron.Current cron reading slot) :
      Faithful name cron begun loaded now (.recordFired job slot)

namespace Procedure

variable {S α β : Type} {p q : Call → Prop}

/-- Every call that the procedure may come to satisfies a condition. -/
def Only (p : Call → Prop) : Procedure S α → Prop
  | done _ => True
  | call c next => p c ∧ ∀ r, (next r).Only p
  | update _ next => ∀ s, (next s).Only p

theorem Only.mono (hpq : ∀ c, p c → q c) {proc : Procedure S α} (h : proc.Only p) :
    proc.Only q := by
  induction proc with
  | done => trivial
  | call c next ih => exact ⟨hpq c h.1, fun r => ih r (h.2 r)⟩
  | update f next ih => exact fun s => ih s (h s)

theorem Only.bind {proc : Procedure S α} {f : α → Procedure S β} (h : proc.Only p)
    (hf : ∀ value, (f value).Only p) : (proc >>= f).Only p := by
  change (proc.bind f).Only p
  induction proc with
  | done value => exact hf value
  | call c next ih => exact ⟨h.1, fun r => ih r (h.2 r)⟩
  | update g next ih => exact fun s => ih s (h s)

end Procedure

namespace Scheduler

variable {p : Call → Prop}

theorem settle_only {job : String} {slot : Instant} (hrecord : p (.recordFired job slot))
    (reply : Except StoreError MessageId) : (settle job slot reply).Only p := by
  cases reply with
  | ok id => exact fun _ => ⟨hrecord, fun _ _ => trivial⟩
  | error e =>
      cases e with
      | duplicateKey key => exact fun _ _ => trivial
      | notFound | notOwned | unavailable | unreadable => exact fun _ => trivial

theorem fire_only (hplain : ∀ c : Call, c.isJobCall = false → p c) {job : String} {slot : Instant}
    (hrecord : p (.recordFired job slot)) (now stamp : Instant) (id : MessageId) :
    (fire now stamp id job slot).Only p := by
  refine Procedure.Only.bind (fun _ => trivial) fun s => ?_
  cases s.candidate? job slot with
  | none => trivial
  | some kept =>
      dsimp only
      cases kept.factory ⟨job, slot, now⟩ with
      | error e => exact fun _ => trivial
      | ok message => exact ⟨hplain _ rfl, fun reply => settle_only hrecord reply⟩

theorem fireEach_only (hplain : ∀ c : Call, c.isJobCall = false → p c)
    {due : List (String × Instant)} (hrecord : ∀ d ∈ due, p (.recordFired d.1 d.2))
    (now stamp : Instant) (draw : Nat → MessageId) (drawn stored : Nat) :
    (fireEach now stamp draw due drawn stored).Only p := by
  induction due generalizing drawn stored with
  | nil => trivial
  | cons d due ih =>
      obtain ⟨hfirst, hrest⟩ := List.forall_mem_cons.mp hrecord
      exact (fire_only hplain hfirst now stamp _).bind fun _ => ih hrest _ _

end Scheduler

variable {loaded : Option Backend}

theorem Call.keeping_plain (h : c.isJobCall = false) (name : String)
    (kept : Option (String × Option Instant)) : c.keeping name kept = kept := by
  cases c with
  | saveJob | loadJobs | removeJob | recordFired => cases h
  | _ => rfl

theorem Call.Faithful.keeping (h : c.Faithful name cron begun loaded now)
    (hkept : Kept cron now kept) : Kept cron now (c.keeping name kept) := by
  cases h with
  | plain hmessages =>
      rw [Call.keeping_plain hmessages]
      exact hkept
  | @save job hsame =>
      rw [Call.keeping]
      split
      · rename_i hname
        obtain ⟨hcron, b, -, hfollows, hlast⟩ := hsame hname
        rintro _ ⟨rfl⟩
        exact ⟨hcron, fun slot hslot => hfollows.reached (hlast.symm.trans hslot)⟩
      · exact hkept
  | @record job slot hcurrent =>
      rw [Call.keeping]
      split
      · rename_i hname
        obtain ⟨reading, hle, -, hslot⟩ := hcurrent hname
        intro p hp
        obtain ⟨p', hp', rfl⟩ := Option.map_eq_some_iff.mp hp
        refine ⟨(hkept p' hp').1, ?_⟩
        rintro _ ⟨rfl⟩
        exact hslot.reached.later hle
      · exact hkept

theorem Call.Faithful.ne_loadJobs (h : c.Faithful name cron begun loaded now) : c ≠ .loadJobs := by
  cases h with
  | plain hmessages =>
      rintro rfl
      cases hmessages
  | save | record => exact fun h => by cases h

theorem Call.timely_plain (h : c.isJobCall = false) (name : String) (begun : Backend)
    (loaded : Option Backend) (store : Backend) : c.Timely name begun loaded store := by
  cases c with
  | saveJob | loadJobs | removeJob | recordFired => cases h
  | _ => trivial

theorem Call.Faithful.later (h : c.Faithful name cron begun loaded now) (hle : now ≤ now') :
    c.Faithful name cron begun loaded now' := by
  cases h with
  | plain hmessages => exact .plain hmessages
  | save hsame =>
      refine .save fun hname => ?_
      obtain ⟨hcron, b, hb, hfollows, hlast⟩ := hsame hname
      exact ⟨hcron, b, hb, hfollows.later hle, hlast⟩
  | record hcurrent =>
      refine .record fun hname => ?_
      obtain ⟨reading, hreading, h⟩ := hcurrent hname
      exact ⟨reading, hreading.trans hle, h⟩

namespace Backend

theorem Follows.step (h : b.Follows name cron now) (hc : c.Faithful name cron begun loaded now) :
    (b.answer c).2.Follows name cron now := by
  obtain ⟨hnames, kept, hkept, hreached⟩ := h
  exact ⟨hnames.step c, _, hkept.step c, hc.keeping hreached⟩

/-- A timely call keeps the slot that fired last, or a later one takes its place. -/
theorem Follows.advances (h : b.Follows name cron now)
    (hc : c.Faithful name cron begun loaded now) (htimely : c.Timely name begun loaded b)
    {slot : Instant} (hslot : b.lastSlot? name = some slot) :
    ∃ last, (b.answer c).2.lastSlot? name = some last ∧ slot ≤ last := by
  obtain ⟨-, kept, hkept, hreached⟩ := h
  rw [(hkept.step c).lastSlot? (hc.keeping hreached).exact]
  have hbefore := hslot
  rw [hkept.lastSlot? hreached.exact] at hbefore
  cases hc with
  | plain hmessages =>
      rw [Call.keeping_plain hmessages]
      exact ⟨slot, hbefore, le_refl _⟩
  | @save job hsame =>
      rw [Call.keeping]
      split
      · rename_i hname
        obtain ⟨-, b', hb', -, hlast⟩ := hsame hname
        obtain ⟨b'', hb'', hcurrent⟩ := htimely hname
        obtain rfl : b' = b'' := Option.some.inj (hb'.symm.trans hb'')
        exact ⟨slot, hlast.trans (hcurrent.trans hslot), le_refl _⟩
      · exact ⟨slot, hbefore, le_refl _⟩
  | @record job noted hcurrent =>
      rw [Call.keeping]
      split
      · rename_i hname
        obtain ⟨reading, -, hbegun, hnoted⟩ := hcurrent hname
        obtain ⟨p, rfl, -⟩ := Option.bind_eq_some_iff.mp hbefore
        exact ⟨noted, rfl, hnoted.le (hbegun.reached ((htimely hname).trans hslot))⟩
      · exact ⟨slot, hbefore, le_refl _⟩

theorem Follows.lt_due (h : b.Follows name cron now) (hload : (b.answer .loadJobs).1 = .ok jobs)
    {last due : Instant} (hlast : b.lastSlot? name = some last)
    (hdue : (name, due) ∈ JobRecord.dueSlots jobs now) : last < due := by
  obtain ⟨j, hj, hname, -, s, hparse, hslot⟩ := JobRecord.mem_dueSlots.mp hdue
  obtain ⟨hcron, hsame⟩ := (h.load hload).1 j hj hname
  obtain ⟨s', fire, hparse', hfires, hreached, rfl⟩ := h.reached hlast
  rw [hcron] at hparse
  obtain rfl : s' = s := Except.ok.inj (hparse'.symm.trans hparse)
  exact JobRecord.lt_dueSlot? (Cron.Schedule.parse_ordered hparse) hslot hfires hreached
    (hsame.trans hlast)

end Backend

/-! ## Chores -/

/-- A chore goes on faithfully, or will when it has loaded the jobs. -/
inductive Chore.Sound (name cron : String) (now : Instant) : Chore → Prop
  | loads {i : Nat} {begun : Backend} {loaded : Option Backend}
      {next : Call.loadJobs.Reply → Procedure Scheduler (Except QueueError Nat)}
      (faithful : ∀ b later, now ≤ later → b.Follows name cron later →
        (next (b.answer .loadJobs).1).Only (Call.Faithful name cron begun (some b) later)) :
      Sound name cron now ⟨i, begun, loaded, .call .loadJobs next⟩
  | goes {d : Chore} (faithful : d.rest.Only (Call.Faithful name cron d.begun d.loaded now)) :
      Sound name cron now d

theorem Chore.Sound.later {d : Chore} (h : d.Sound name cron now) (hle : now ≤ now') :
    d.Sound name cron now' := by
  cases h with
  | loads hfaithful => exact .loads fun b later hlater => hfaithful b later (hle.trans hlater)
  | goes hfaithful => exact .goes (hfaithful.mono fun c hc => hc.later hle)

/-- A tick notes slots that are current at its reading of the clock. -/
theorem Chore.Sound.tick (hbegun : begun.Follows name cron now) (i : Nat) (stamp : Instant)
    (draw : Nat → MessageId) :
    Chore.Sound name cron now ⟨i, begun, none, Scheduler.tick now stamp draw⟩ := by
  refine .loads fun b later hlater hb => ?_
  cases hload : (b.answer .loadJobs).1 with
  | error e => trivial
  | ok jobs =>
      refine (Scheduler.fireEach_only (fun c hc => .plain hc) ?_ now stamp draw 0 0).bind
        fun _ => trivial
      rintro ⟨job, slot⟩ hdue
      refine .record fun hname => ⟨now, hlater, hbegun, ?_⟩
      obtain ⟨j, hj, hj', -, s, hparse, hslot⟩ := JobRecord.mem_dueSlots.mp hdue
      obtain ⟨-, fire, hlatest, heq⟩ :=
        JobRecord.dueSlot?_latest (Cron.Schedule.parse_ordered hparse) hslot
      have hcron := ((hb.load hload).1 j hj (hj'.trans hname)).1
      exact ⟨s, fire, hcron ▸ hparse, hlatest, heq⟩

/-- An addition saves the slot that it loads. -/
theorem Chore.Sound.add {job expr : String} (hallow : Fleet.Always name cron job expr) (i : Nat)
    (begun : Backend) (factory : PayloadFactory) (window : Option Duration) (reading : Instant) :
    Chore.Sound name cron now
      ⟨i, begun, none, Scheduler.addJob job expr factory window reading⟩ := by
  unfold Scheduler.addJob
  split
  · exact .goes trivial
  · split
    · exact .goes trivial
    · refine .loads fun b later hlater hb => ?_
      cases hload : (b.answer .loadJobs).1 with
      | error e => trivial
      | ok jobs =>
          refine ⟨.save fun hname => ⟨hallow hname, b, rfl, hb, ?_⟩, fun reply => ?_⟩
          · obtain rfl : job = name := hname
            exact (hb.load hload).2
          · cases reply with
            | error e => trivial
            | ok _ => exact fun _ => trivial

theorem Chore.after_call {d : Chore} {next : c.Reply → Procedure Scheduler (Except QueueError Nat)}
    (hrest : d.rest = .call c next) (hc : c ≠ .loadJobs) (b : Backend)
    (rest : Procedure Scheduler (Except QueueError Nat)) : d.after b rest = { d with rest } := by
  rw [Chore.after, hrest]
  cases c with
  | loadJobs => exact absurd rfl hc
  | _ => rfl

namespace Chore

variable {d : Chore}

theorem Sound.advance (h : d.Sound name cron now) (hb : b.Follows name cron now) (s : Scheduler) :
    (d.after b (d.rest.step Backend.answer b s).1).Sound name cron now ∧
      (d.rest.step Backend.answer b s).2.1.Follows name cron now := by
  cases h with
  | loads hfaithful =>
      refine ⟨.goes (hfaithful b now le_rfl hb), ?_⟩
      change (b.answer .loadJobs).2.Follows name cron now
      rw [b.answer_loadJobs]
      exact hb
  | goes hfaithful =>
      cases hrest : d.rest with
      | done value =>
          rw [hrest] at hfaithful
          exact ⟨.goes trivial, hb⟩
      | call c next =>
          rw [hrest] at hfaithful
          obtain ⟨hc, hnext⟩ := hfaithful
          rw [after_call hrest hc.ne_loadJobs]
          exact ⟨.goes (hnext _), hb.step hc⟩
      | update f next =>
          rw [hrest] at hfaithful
          refine ⟨.goes ?_, hb⟩
          rw [after, hrest]
          exact hfaithful s

theorem Sound.advances (h : d.Sound name cron now) (hb : b.Follows name cron now) (s : Scheduler)
    (htimely : d.Timely name b) {slot : Instant} (hslot : b.lastSlot? name = some slot) :
    ∃ last, (d.rest.step Backend.answer b s).2.1.lastSlot? name = some last ∧ slot ≤ last := by
  cases h with
  | loads =>
      refine ⟨slot, ?_, le_refl _⟩
      change (b.answer .loadJobs).2.lastSlot? name = some slot
      rw [b.answer_loadJobs, hslot]
  | goes hfaithful =>
      cases hrest : d.rest with
      | done | update => exact ⟨slot, hslot, le_refl _⟩
      | call c next =>
          rw [hrest] at hfaithful
          rw [Timely, hrest] at htimely
          exact hb.advances hfaithful.1 htimely hslot

end Chore

namespace Roster

variable {r r' : Roster} {admitted : Roster → Nat → Prop}

/-- What is known of a name in a run. -/
structure Sound (name cron : String) (r : Roster) : Prop where
  follows : r.store.Follows name cron r.clock
  chores : ∀ d ∈ r.chores, d.Sound name cron r.clock

theorem Sound.begin (h : r.Sound name cron) {i : Nat}
    {p : Procedure Scheduler (Except QueueError Nat)}
    (hp : Chore.Sound name cron r.clock ⟨i, r.store, none, p⟩) : (r.begin i p).Sound name cron where
  follows := h.follows
  chores d hd := by
    rcases List.mem_append.mp hd with hd | hd
    · exact h.chores d hd
    · rw [List.mem_singleton.mp hd]
      exact hp

theorem Sound.advance (h : r.Sound name cron) (k : Nat) : (r.advance k).Sound name cron := by
  unfold Roster.advance
  split
  · exact h
  · rename_i d hd
    split
    · exact h
    · rename_i s _
      obtain ⟨hchore, hstore⟩ :=
        (h.chores d (List.mem_of_getElem? hd)).advance h.follows s
      refine ⟨hstore, fun d' hd' => ?_⟩
      rcases List.mem_or_eq_of_mem_set hd' with hd' | rfl
      · exact h.chores d' hd'
      · exact hchore

theorem Step.sound (h : Step (Fleet.Always name cron) admitted r r') (hr : r.Sound name cron) :
    r'.Sound name cron := by
  cases h with
  | wait hforward =>
      exact ⟨hr.follows.later hforward, fun d hd => (hr.chores d hd).later hforward⟩
  | tick i stamp draw => exact hr.begin (.tick hr.follows i stamp draw)
  | add i hallow factory window hforward => exact hr.begin (.add hallow i _ factory window _)
  | advance k => exact hr.advance k
  | change => exact ⟨hr.follows, hr.chores⟩
  | call hmessages =>
      exact ⟨hr.follows.step (.plain hmessages : Call.Faithful name cron r.store none r.clock _),
        hr.chores⟩

theorem Reachable.sound (h : Reachable (Fleet.Always name cron) r) : r.Sound name cron := by
  induction h with
  | start hempty schedulers clock =>
      refine ⟨⟨.start hempty, none, .start hempty name, ?_⟩, ?_⟩
      · intro p hp
        cases hp
      · intro d hd
        cases hd
  | step _ hstep ih => exact hstep.sound ih

/-- Carry out some steps of one chore. -/
def go (r : Roster) (k : Nat) : Nat → Roster
  | 0 => r
  | n + 1 => (r.go k n).advance k

theorem run_go {allowed : String → String → Prop} {k n : Nat}
    (h : ∀ i < n, admitted (r.go k i) k) :
    Relation.ReflTransGen (Step allowed admitted) r (r.go k n) := by
  induction n with
  | zero => exact .refl
  | succ n ih =>
      exact (ih fun i hi => h i (Nat.lt_succ_of_lt hi)).tail (.advance k (h n (Nat.lt_succ_self n)))

theorem Reachable.run {allowed : String → String → Prop} (h : Reachable allowed r)
    (hrun : Relation.ReflTransGen (Step allowed fun _ _ => True) r r') : Reachable allowed r' := by
  induction hrun with
  | refl => exact h
  | tail _ hstep ih => exact ih.step hstep

/-- A step in which no write is overtaken keeps the slot, or a later one takes its place. -/
theorem Step.advances (h : Step (Fleet.Always name cron) (Timely name) r r')
    (hr : r.Sound name cron) {slot : Instant} (hslot : r.store.lastSlot? name = some slot) :
    ∃ last, r'.store.lastSlot? name = some last ∧ slot ≤ last := by
  cases h with
  | wait | tick | add | change => exact ⟨slot, hslot, le_refl _⟩
  | advance k htimely =>
      unfold Roster.advance
      split
      · exact ⟨slot, hslot, le_refl _⟩
      · rename_i d hd
        split
        · exact ⟨slot, hslot, le_refl _⟩
        · exact (hr.chores d (List.mem_of_getElem? hd)).advances hr.follows _ (htimely d hd) hslot
  | call hmessages =>
      exact hr.follows.advances (.plain hmessages : Call.Faithful name cron r.store none r.clock _)
        (Call.timely_plain hmessages ..) hslot

/-- However ticks and additions of all schedulers are interleaved, the slot that fired last is kept
or a later one takes its place as long as no write is overtaken, and what is due is later. -/
theorem slot_kept (h : Reachable (Fleet.Always name cron) r)
    (hrun : Relation.ReflTransGen (Step (Fleet.Always name cron) (Timely name)) r r')
    {slot : Instant} (hslot : r.store.lastSlot? name = some slot) :
    ∃ last, r'.store.lastSlot? name = some last ∧ slot ≤ last ∧
      ∀ jobs, (r'.store.answer .loadJobs).1 = .ok jobs →
        ∀ due, (name, due) ∈ JobRecord.dueSlots jobs r'.clock → last < due := by
  suffices hkept : r'.Sound name cron ∧
      ∃ last, r'.store.lastSlot? name = some last ∧ slot ≤ last by
    obtain ⟨hsound, last, hlast, hle⟩ := hkept
    exact ⟨last, hlast, hle, fun jobs hload due hdue => hsound.follows.lt_due hload hlast hdue⟩
  induction hrun with
  | refl => exact ⟨h.sound, slot, hslot, le_refl _⟩
  | tail _ hstep ih =>
      obtain ⟨hsound, last, hlast, hle⟩ := ih
      obtain ⟨later, hlater, hle'⟩ := hstep.advances hsound hlast
      exact ⟨hstep.sound hsound, later, hlater, hle.trans hle'⟩

/-- A slot is fired, the job is added once more by another scheduler, and the next slot is fired. -/
theorem slot_kept_readded :
    let report : PayloadFactory := fun _ => .ok { payload := [1] }
    let minute (n : Nat) : Instant := (Instant.make? (60 * n) 0).getD .epoch
    let add (r : Roster) (i : Nat) : Roster :=
      r.begin i (Scheduler.addJob "report" "0 * * * * *" report none r.clock)
    let tick (r : Roster) (i n : Nat) : Roster :=
      r.begin i (Scheduler.tick r.clock .epoch fun _ => ⟨.ofNat n⟩)
    let wait (r : Roster) (clock : Instant) : Roster := { r with clock }
    let call (r : Roster) (c : Call) : Roster := { r with store := (r.store.answer c).2 }
    let added := (add (start (.memory .empty) [.make 8, .make 8] .epoch) 0).go 0 3
    let fired := (tick (wait added (minute 1)) 0 1).go 1 6
    let readded := (add fired 1).go 2 3
    let claimed := call readded (.claim [] ⟨"a"⟩ .epoch)
    let completed := call claimed (.complete ⟨.ofNat 1⟩ ⟨"a"⟩)
    let last := (tick (wait completed (minute 2)) 1 2).go 3 6
    last.store.lastSlot? "report" = some (minute 2) ∧
      ∃ slot, last.store.lastSlot? "report" = some slot ∧ minute 1 ≤ slot ∧
        ∀ jobs, (last.store.answer .loadJobs).1 = .ok jobs →
          ∀ due, ("report", due) ∈ JobRecord.dueSlots jobs last.clock → slot < due := by
  intro report minute add tick wait call added fired readded claimed completed last
  let allowed := Fleet.Always "report" "0 * * * * *"
  let Runs := Relation.ReflTransGen (Step allowed (Timely "report"))
  have hfired : Reachable allowed fired := by
    have hforward : added.clock ≤ minute 1 := by decide +kernel
    have hadded : Reachable allowed added :=
      ((Reachable.start (.inl rfl) _ _).step (.add 0 (fun _ => rfl) report none (le_refl _))).run
        (run_go fun _ _ => trivial)
    exact ((hadded.step (.wait hforward)).step (.tick 0 .epoch _)).run (run_go fun _ _ => trivial)
  have hreadded : Runs fired readded :=
    .trans (.single (.add 1 (fun _ => rfl) report none (le_refl _))) (run_go (by decide +kernel))
  have hcompleted : Runs readded completed := .tail (.single (.call rfl)) (.call rfl)
  have hlast : Runs completed last := by
    have hforward : completed.clock ≤ minute 2 := by decide +kernel
    exact .trans (.tail (.single (.wait hforward)) (.tick 1 .epoch _)) (run_go (by decide +kernel))
  exact ⟨by decide +kernel,
    slot_kept hfired (hreadded.trans (hcompleted.trans hlast)) (by decide +kernel)⟩

/-- An addition loads the jobs, then a slot is fired, then the addition saves its job: the slot is
forgotten and due once more. -/
theorem not_forall_slot_kept :
    ¬ ∀ (name cron : String) (r r' : Roster), Reachable (Fleet.Always name cron) r →
      Relation.ReflTransGen (Step (Fleet.Always name cron) fun _ _ => True) r r' →
      ∀ slot, r.store.lastSlot? name = some slot →
        (∃ last, r'.store.lastSlot? name = some last ∧ slot ≤ last) ∨
        ∀ jobs, (r'.store.answer .loadJobs).1 = .ok jobs →
          (name, slot) ∉ JobRecord.dueSlots jobs r'.clock := by
  intro hall
  let report : PayloadFactory := fun _ => .ok { payload := [1] }
  let minute : Instant := ⟨60, 0, by decide⟩
  let allowed := Fleet.Always "report" "0 * * * * *"
  let job := JobRecord.make "report" "0 * * * * *" (some ⟨60, 0, by decide⟩) minute
  let first := start (.memory .empty) [.make 8, .make 8] ⟨30, 0, by decide⟩
  let added := (first.begin 0
    (Scheduler.addJob "report" "0 * * * * *" report none ⟨30, 0, by decide⟩)).go 0 3
  let waited : Roster := { added with clock := minute }
  let loaded := (waited.begin 1
    (Scheduler.addJob "report" "0 * * * * *" report (some ⟨60, 0, by decide⟩) minute)).go 1 1
  let fired := (loaded.begin 0 (Scheduler.tick minute .epoch fun _ => ⟨.ofNat 1⟩)).go 2 6
  have hgo {r : Roster} (h : Reachable allowed r) (k n : Nat) : Reachable allowed (r.go k n) :=
    h.run (run_go fun _ _ => trivial)
  have hadded : Reachable allowed added :=
    hgo ((Reachable.start (.inl rfl) _ _).step (.add 0 (fun _ => rfl) report none (le_refl _))) 0 3
  have hforward : added.clock ≤ minute := by decide +kernel
  have hwaited : Reachable allowed waited := hadded.step (.wait hforward)
  have hloaded : Reachable allowed loaded :=
    hgo (hwaited.step (.add 1 (fun _ => rfl) report _ (le_refl _))) 1 1
  have hclock : loaded.clock = minute := by decide +kernel
  have hfired : Reachable allowed fired := hgo (hloaded.step (hclock ▸ .tick 0 .epoch _)) 2 6
  rcases hall "report" "0 * * * * *" fired (fired.go 1 1) hfired (run_go fun _ _ => trivial) minute
    (by decide +kernel) with ⟨last, hlast, -⟩ | hdue
  · have hnone : (fired.go 1 1).store.lastSlot? "report" = none := by decide +kernel
    rw [hnone] at hlast
    cases hlast
  · exact hdue [job] (by decide +kernel) (by decide +kernel)

end Roster

end WorkQueue
