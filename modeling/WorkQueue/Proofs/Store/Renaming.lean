import Mathlib
import WorkQueue.Proofs.Store.Jobs

/-! # Renaming what a store draws

Two stores draw identifiers and read the wall clock on their own. Nothing that a store does depends
on which identifiers these are, or on the time of the insertion, so the answers to calls that name
other messages are the same answers about the other messages.
-/

namespace WorkQueue

/-- The identifiers that another store drew in place of those of this one, and the wall clock that
it read for them. -/
structure Renaming where
  id : MessageId → MessageId
  stamp : MessageId → Instant
  injective : Function.Injective id

namespace Message

/-- The message as the other store shows it. -/
def renamed (ρ : Renaming) (m : Message) : Message :=
  { m with id := ρ.id m.id, enqueuedAt := (ρ.stamp m.id).micros }

end Message

namespace StoreError

def renamed (ρ : Renaming) : StoreError → StoreError
  | .notOwned id => .notOwned (ρ.id id)
  | .notFound id => .notFound (ρ.id id)
  | e => e

end StoreError

namespace Call

/-- The call as it is made to the other store. -/
def renamed (ρ : Renaming) : Call → Call
  | insert m id _ => insert m (ρ.id id) (ρ.stamp id)
  | claim routes token now => claim routes token now
  | heartbeat id token now => heartbeat (ρ.id id) token now
  | complete id token => complete (ρ.id id) token
  | fail id token reason => fail (ρ.id id) token reason
  | scan threshold => scan threshold
  | reset scanned => reset (scanned.renamed ρ)
  | poison scanned reason => poison (scanned.renamed ρ) reason
  | requeue id => requeue (ρ.id id)
  | purge now => purge now
  | get id => get (ρ.id id)
  | countForJob name => countForJob name
  | saveJob job => saveJob job
  | loadJobs => loadJobs
  | removeJob name => removeJob name
  | recordFired name slot => recordFired name slot

def renameValue (ρ : Renaming) : (c : Call) → c.Value → (c.renamed ρ).Value
  | insert .., id => ρ.id id
  | claim .., found => found.map (Message.renamed ρ)
  | heartbeat .., done => done
  | complete .., done => done
  | fail .., done => done
  | scan .., found => found.map (Message.renamed ρ)
  | reset .., changed => changed
  | poison .., changed => changed
  | requeue .., changed => changed
  | purge .., n => n
  | get .., found => found.map (Message.renamed ρ)
  | countForJob .., n => n
  | saveJob .., done => done
  | loadJobs, jobs => jobs
  | removeJob .., changed => changed
  | recordFired .., done => done

/-- The reply as the other store gives it. -/
def renameReply (ρ : Renaming) (c : Call) (r : c.Reply) : (c.renamed ρ).Reply :=
  match r with
  | .ok value => .ok (c.renameValue ρ value)
  | .error e => .error (e.renamed ρ)

/-- All times of a call are whole microseconds in years of four digits, and a window is a number of
whole milliseconds. -/
structure Exact (c : Call) : Prop where
  times : ∀ t ∈ c.times, t.Exact
  window : ∀ d ∈ c.window?, d.WholeMillis

instance (c : Call) : Decidable c.Exact :=
  decidable_of_iff ((∀ t ∈ c.times, t.Exact) ∧ ∀ d ∈ c.window?, d.WholeMillis)
    ⟨fun h => ⟨h.1, h.2⟩, fun h => ⟨h.1, h.2⟩⟩

end Call

/-- The call and the reply at the other store. -/
def Entry.renamed (ρ : Renaming) (e : Entry) : Entry :=
  ⟨e.call.renamed ρ, e.call.renameReply ρ e.reply⟩

/-! ## Moves of renamed messages -/

namespace Message

theorem requeue?_renamed (ρ : Renaming) (m : Message) :
    (m.renamed ρ).requeue? = m.requeue?.map (Message.renamed ρ) := by
  by_cases h : m.status ≠ .error ∨ m.requeued ∨ m.errorReason? = some tooManyExpiries
  · rw [requeue?, requeue?, if_pos h]
    exact if_pos h
  · rw [requeue?, requeue?, if_neg h]
    exact if_neg h

end Message

namespace Memory

open Instant (micros)

def renamed (ρ : Renaming) (s : Memory) : Memory :=
  { s with messages := s.messages.map (Message.renamed ρ) }

variable (ρ : Renaming) (s : Memory)

theorem renamed_messages : (s.renamed ρ).messages = s.messages.map (Message.renamed ρ) := rfl

theorem find?_renamed (id : MessageId) :
    (s.renamed ρ).find? (ρ.id id) = (s.find? id).map (Message.renamed ρ) := by
  have hids : (fun m => decide (m.id = ρ.id id)) ∘ Message.renamed ρ =
      fun m => decide (m.id = id) := by
    funext m
    exact decide_eq_decide.mpr ρ.injective.eq_iff
  rw [find?, renamed_messages, List.find?_map, hids]
  rfl

theorem modify_renamed (id : MessageId) {f g : Message → Message}
    (hf : ∀ m, f (m.renamed ρ) = (g m).renamed ρ) :
    (s.renamed ρ).modify (ρ.id id) f = (s.modify id g).renamed ρ := by
  simp only [modify, renamed, List.map_map, Memory.mk.injEq, and_self, and_true]
  refine List.map_congr_left fun m _ => ?_
  have hid : (m.renamed ρ).id = ρ.id m.id := rfl
  simp only [Function.comp_apply, hid, ρ.injective.eq_iff, hf]
  split <;> rfl

theorem filter_renamed (ms : List Message) {p q : Message → Bool}
    (hp : ∀ m, p (m.renamed ρ) = q m) :
    (ms.map (Message.renamed ρ)).filter p = (ms.filter q).map (Message.renamed ρ) := by
  rw [List.filter_map]
  exact congrArg _ (List.filter_congr fun m _ => hp m)

theorem isBlocked_renamed (ms : List Message) (job : Option JobSlotKey) :
    isBlocked (ms.map (Message.renamed ρ)) job = isBlocked ms job := by
  simp only [isBlocked, List.any_map]
  rfl

theorem best?_renamed (ms : List Message) :
    best? (ms.map (Message.renamed ρ)) = (best? ms).map (Message.renamed ρ) := by
  induction ms with
  | nil => rfl
  | cons m ms ih =>
      rw [List.map_cons, best?, best?, ih]
      cases best? ms with
      | none => rfl
      | some b =>
          have hbefore : (b.renamed ρ).claimedBefore (m.renamed ρ) = b.claimedBefore m := rfl
          simp only [Option.map_some, hbefore]
          split <;> rfl

/-! ## Answers to renamed calls -/

/-- The answer to a renamed call is the answer to the call, renamed. -/
def Renames (ρ : Renaming) (s : Memory) (c : Call) : Prop :=
  (s.renamed ρ).answerThrough micros (c.renamed ρ) =
    (c.renameReply ρ (s.answer c).1, (s.answer c).2.renamed ρ)

theorem map_micros {time : Option Instant} (h : ∀ t ∈ time, t.Exact) : time.map micros = time := by
  cases time with
  | none => rfl
  | some t => rw [Option.map_some, (h t rfl).2]

theorem cut_exact {m : NewMessage} {id : MessageId} {stamp : Instant}
    (hc : (Call.insert m id stamp).Exact) : m.cut micros = m := by
  have htimes := hc.times
  simp only [Call.times, List.mem_append, Option.mem_toList, or_imp, forall_and] at htimes
  obtain ⟨⟨hvisible, hexpires⟩, hslot⟩ := htimes
  have hjob : m.job.map (·.cut micros) = m.job := by
    cases hjob : m.job with
    | none => rfl
    | some k =>
        have := (hslot k.slot (by rw [hjob]; rfl)).2
        rw [Option.map_some, JobSlotKey.cut, this]
  rw [NewMessage.cut, map_micros hvisible, map_micros hexpires, hjob]

theorem insert_renames (ρ : Renaming) (s : Memory) {m : NewMessage} {id : MessageId}
    {stamp : Instant} (hc : (Call.insert m id stamp).Exact) : Renames ρ s (.insert m id stamp) := by
  change (s.renamed ρ).insert (m.cut micros) (ρ.id id) (ρ.stamp id).micros =
    (Call.renameReply ρ (.insert m id stamp) (s.insert m id stamp).1,
      (s.insert m id stamp).2.renamed ρ)
  have hblocked : isBlocked (s.renamed ρ).messages m.job = isBlocked s.messages m.job :=
    isBlocked_renamed ρ s.messages m.job
  have hadded : (s.renamed ρ).add m (ρ.id id) (ρ.stamp id).micros =
      (s.add m id stamp).renamed ρ := by
    simp only [add, renamed, List.map_append]
    rfl
  rw [cut_exact hc, insert, insert]
  cases hjob : m.job with
  | none => exact Prod.ext rfl hadded
  | some key =>
      rw [hjob] at hblocked
      simp only [hblocked]
      by_cases h : isBlocked s.messages (some key) = true
      · rw [if_pos h, if_pos h]
        rfl
      · rw [if_neg h, if_neg h, hadded]
        rfl

theorem claim_renames (ρ : Renaming) (s : Memory) {routes : List String} {token : Owner}
    {now : Instant} (hc : (Call.claim routes token now).Exact) :
    Renames ρ s (.claim routes token now) := by
  change (s.renamed ρ).claim routes token now.micros =
    (Call.renameReply ρ (.claim routes token now) (s.claim routes token now).1,
      (s.claim routes token now).2.renamed ρ)
  have hbest : best? ((s.renamed ρ).messages.filter (·.isClaimable now routes)) =
      (best? (s.messages.filter (·.isClaimable now routes))).map (Message.renamed ρ) := by
    rw [renamed_messages, filter_renamed ρ s.messages fun m => rfl, best?_renamed]
    rfl
  rw [(hc.times now (List.mem_singleton_self now)).2, claim, claim, hbest]
  cases best? (s.messages.filter (·.isClaimable now routes)) with
  | none => rfl
  | some m =>
      have hmodify : (s.renamed ρ).modify (ρ.id m.id) (·.beginLease token now) =
          (s.modify m.id (·.beginLease token now)).renamed ρ := modify_renamed ρ s m.id fun _ => rfl
      exact Prod.ext rfl hmodify

theorem heartbeat_renames (ρ : Renaming) (s : Memory) {id : MessageId} {token : Owner}
    {now : Instant} (hc : (Call.heartbeat id token now).Exact) :
    Renames ρ s (.heartbeat id token now) := by
  change (s.renamed ρ).heartbeat (ρ.id id) token now.micros =
    (Call.renameReply ρ (.heartbeat id token now) (s.heartbeat id token now).1,
      (s.heartbeat id token now).2.renamed ρ)
  rw [(hc.times now (List.mem_singleton_self now)).2, heartbeat, heartbeat, find?_renamed]
  cases s.find? id with
  | none => rfl
  | some m =>
      have hstatus : (m.renamed ρ).status = m.status := rfl
      have howned : (m.renamed ρ).isOwnedBy token = m.isOwnedBy token := rfl
      have hmodify : (s.renamed ρ).modify (ρ.id id) (·.renew now) =
          (s.modify id (·.renew now)).renamed ρ := modify_renamed ρ s id fun _ => rfl
      simp only [Option.map_some, hstatus, howned, hmodify]
      split
      · rfl
      · split <;> rfl

theorem complete_renames (ρ : Renaming) (s : Memory) (id : MessageId) (token : Owner) :
    Renames ρ s (.complete id token) := by
  change (s.renamed ρ).complete (ρ.id id) token =
    (Call.renameReply ρ (.complete id token) (s.complete id token).1,
      (s.complete id token).2.renamed ρ)
  rw [complete, complete, find?_renamed]
  cases s.find? id with
  | none => rfl
  | some m =>
      have hstatus : (m.renamed ρ).status = m.status := rfl
      have howned : (m.renamed ρ).isOwnedBy token = m.isOwnedBy token := rfl
      have hmodify : (s.renamed ρ).modify (ρ.id id) (·.completed) =
          (s.modify id (·.completed)).renamed ρ := modify_renamed ρ s id fun _ => rfl
      simp only [Option.map_some, hstatus, howned, hmodify]
      split
      · rfl
      · split <;> rfl

theorem fail_renames (ρ : Renaming) (s : Memory) (id : MessageId) (token : Owner)
    (reason : String) : Renames ρ s (.fail id token reason) := by
  change (s.renamed ρ).fail (ρ.id id) token reason =
    (Call.renameReply ρ (.fail id token reason) (s.fail id token reason).1,
      (s.fail id token reason).2.renamed ρ)
  rw [fail, fail, find?_renamed]
  cases s.find? id with
  | none => rfl
  | some m =>
      have hstatus : (m.renamed ρ).status = m.status := rfl
      have howned : (m.renamed ρ).isOwnedBy token = m.isOwnedBy token := rfl
      have hmodify : (s.renamed ρ).modify (ρ.id id) (·.failed reason) =
          (s.modify id (·.failed reason)).renamed ρ := modify_renamed ρ s id fun _ => rfl
      simp only [Option.map_some, hstatus, howned, hmodify]
      split <;> rfl

theorem recover_renamed (ρ : Renaming) (s : Memory) (scanned : Message) {f : Message → Message}
    (hf : ∀ m, f (m.renamed ρ) = (f m).renamed ρ) :
    (s.renamed ρ).recover (scanned.renamed ρ) f =
      ((s.recover scanned f).1, (s.recover scanned f).2.renamed ρ) := by
  have hid : (scanned.renamed ρ).id = ρ.id scanned.id := rfl
  rw [recover, recover, hid, find?_renamed, modify_renamed ρ s scanned.id hf]
  cases s.find? scanned.id with
  | none => rfl
  | some m =>
      have hsame : (m.renamed ρ).leaseUnchanged (scanned.renamed ρ) =
        m.leaseUnchanged scanned := rfl
      simp only [Option.map_some, hsame]
      split <;> rfl

theorem requeue_renamed (ρ : Renaming) (s : Memory) (id : MessageId) :
    (s.renamed ρ).requeue (ρ.id id) = ((s.requeue id).1, (s.requeue id).2.renamed ρ) := by
  have hfound : ((s.renamed ρ).find? (ρ.id id)).bind Message.requeue? =
      ((s.find? id).bind Message.requeue?).map (Message.renamed ρ) := by
    rw [find?_renamed]
    cases s.find? id with
    | none => rfl
    | some m => exact Message.requeue?_renamed ρ m
  rw [requeue, requeue, hfound]
  cases (s.find? id).bind Message.requeue? with
  | none => rfl
  | some m =>
      have hothers : (s.renamed ρ).messages.filter (fun a => decide (a.id ≠ ρ.id id)) =
          (s.messages.filter fun a => decide (a.id ≠ id)).map (Message.renamed ρ) :=
        filter_renamed ρ s.messages fun a => decide_eq_decide.mpr (not_congr ρ.injective.eq_iff)
      have hjob : (m.renamed ρ).job = m.job := rfl
      have hmodify : (s.renamed ρ).modify (ρ.id id) (fun _ => m.renamed ρ) =
          (s.modify id fun _ => m).renamed ρ := modify_renamed ρ s id fun _ => rfl
      simp only [Option.map_some, hothers, isBlocked_renamed, hjob, hmodify]
      split <;> rfl

theorem purge_renamed (ρ : Renaming) (s : Memory) (now : Instant) :
    (s.renamed ρ).purge now = ((s.purge now).1, (s.purge now).2.renamed ρ) := by
  have hkept : (s.renamed ρ).messages.filter (fun m => !m.isPurgeable now) =
      (s.messages.filter fun m => !m.isPurgeable now).map (Message.renamed ρ) :=
    filter_renamed ρ s.messages fun m => rfl
  rw [purge, purge, hkept, renamed_messages, List.length_map, List.length_map]
  rfl

theorem removeJob_renamed (ρ : Renaming) (s : Memory) (name : String) :
    (s.renamed ρ).removeJob name = ((s.removeJob name).1, (s.removeJob name).2.renamed ρ) := by
  have hjobs : (s.renamed ρ).jobs = s.jobs := rfl
  rw [removeJob, removeJob, hjobs]
  split
  · rfl
  · split <;> rfl

/-- A store answers renamed calls as it answers the calls. -/
theorem answer_renamed (ρ : Renaming) (s : Memory) {c : Call} (hc : c.Exact) : Renames ρ s c := by
  cases c with
  | insert => exact insert_renames ρ s hc
  | claim => exact claim_renames ρ s hc
  | heartbeat => exact heartbeat_renames ρ s hc
  | complete => exact complete_renames ρ s _ _
  | fail => exact fail_renames ρ s _ _ _
  | scan threshold =>
      change (Except.ok ((s.renamed ρ).scan threshold.micros), s.renamed ρ) = _
      rw [(hc.times threshold (List.mem_singleton_self threshold)).2, scan, renamed_messages,
        filter_renamed ρ s.messages fun m => rfl]
      rfl
  | reset scanned =>
      change (Except.ok ((s.renamed ρ).recover (scanned.renamed ρ) (·.reclaimed)).1,
        ((s.renamed ρ).recover (scanned.renamed ρ) (·.reclaimed)).2) = _
      rw [recover_renamed ρ s scanned (f := (·.reclaimed)) fun _ => rfl]
      rfl
  | poison scanned reason =>
      change (Except.ok ((s.renamed ρ).recover (scanned.renamed ρ) (·.poisoned reason)).1,
        ((s.renamed ρ).recover (scanned.renamed ρ) (·.poisoned reason)).2) = _
      rw [recover_renamed ρ s scanned (f := (·.poisoned reason)) fun _ => rfl]
      rfl
  | requeue id =>
      change (Except.ok ((s.renamed ρ).requeue (ρ.id id)).1,
        ((s.renamed ρ).requeue (ρ.id id)).2) = _
      rw [requeue_renamed]
      rfl
  | purge now =>
      change (Except.ok ((s.renamed ρ).purge now.micros).1, ((s.renamed ρ).purge now.micros).2) = _
      rw [(hc.times now (List.mem_singleton_self now)).2, purge_renamed]
      rfl
  | get id => exact Prod.ext (congrArg Except.ok (find?_renamed ρ s id)) rfl
  | countForJob name =>
      refine Prod.ext (congrArg Except.ok ?_) rfl
      rw [renamed_messages, List.countP_map]
      rfl
  | saveJob job =>
      have htimes := hc.times
      simp only [Call.times, List.mem_append, Option.mem_toList, List.mem_singleton] at htimes
      have hcut : job.cut micros = job := by
        rw [JobRecord.cut, map_micros fun t ht => htimes t (.inl ht), (htimes _ (.inr rfl)).2]
      change (_, { s.renamed ρ with jobs := putJob (job.cut micros) s.jobs }) = _
      rw [hcut]
      rfl
  | loadJobs => rfl
  | removeJob name =>
      change (Except.ok ((s.renamed ρ).removeJob name).1, ((s.renamed ρ).removeJob name).2) = _
      rw [removeJob_renamed]
      rfl
  | recordFired name slot =>
      change (_, (s.renamed ρ).modifyJob name (·.markFired slot.micros)) = _
      rw [(hc.times slot (List.mem_singleton_self slot)).2]
      rfl

end Memory

end WorkQueue
