import Mathlib
import WorkQueue.Proofs.Lease.Fencing
import WorkQueue.Proofs.Store.Occupancy

/-! # Purging

A purge deletes waiting messages that have expired. No later claim may hand them out, and nothing
else that consumers do touches a waiting message. So consumers cannot tell a store that was purged
from one that was not, but for the error with which a lease on a deleted message is refused.
-/

namespace WorkQueue

/-- What consumers call from a time on: claims, renewals, settlements and recovery. -/
def Call.Consumes (since : Instant) : Call → Prop
  | claim _ _ now => since ≤ now
  | heartbeat .. | complete .. | fail .. | scan _ | reset _ | poison .. => True
  | _ => False

instance (since : Instant) : (c : Call) → Decidable (c.Consumes since)
  | .claim _ _ now => inferInstanceAs (Decidable (since ≤ now))
  | .heartbeat .. | .complete .. | .fail .. | .scan _ | .reset _ | .poison .. => .isTrue trivial
  | .insert .. | .requeue _ | .purge _ | .get _ | .countForJob _ | .saveJob _ | .loadJobs
  | .removeJob _ | .recordFired .. => .isFalse id

theorem Call.Consumes.insertedId? {since : Instant} {c : Call} (h : c.Consumes since) :
    c.insertedId? = none := by
  cases c with
  | insert => cases h
  | _ => rfl

namespace Message

variable {m m' : Message} {t now : Instant}

theorem isClaimable_of_isPurgeable (h : m.isPurgeable t = true) (hle : t ≤ now)
    (routes : List String) : m.isClaimable now routes = false := by
  simp only [isPurgeable, Bool.and_eq_true, Option.any_eq_true] at h
  obtain ⟨-, expiry, hexpiry, hpassed⟩ := h
  have hover : expiry ≤ now := le_trans (of_decide_eq_true hpassed) hle
  simp [isClaimable, hexpiry, not_lt.mpr hover]

theorem leaseExpired_of_isPurgeable (h : m.isPurgeable t = true) (threshold : Instant) :
    m.leaseExpired threshold = false := by
  simp [leaseExpired, isPurgeable_waiting h]

theorem not_change_of_isPurgeable {c : Call} {r : c.Reply} (h : m.isPurgeable t = true)
    (hc : c.Consumes t) : ¬ m.Change (fun t => t) c r m' := by
  intro hchange
  have hwaiting := isPurgeable_waiting h
  cases hchange with
  | claim hclaimable => simp [isClaimable_of_isPurgeable h hc] at hclaimable
  | renew hheld | complete hheld | fail hheld => cases hwaiting.symm.trans hheld
  | reset _ hunchanged | poison _ hunchanged =>
      cases hwaiting.symm.trans (leaseUnchanged_iff.mp hunchanged).1
  | requeue => exact hc

end Message

namespace Memory

/-- The store without some messages. -/
def without (s : Memory) (gone : List Message) : Memory :=
  { s with messages := s.messages.filter (· ∉ gone) }

/-- Some of the stored messages were to be purged at a time. -/
structure Hides (t : Instant) (gone : List Message) (s : Memory) : Prop where
  distinct : s.Distinct
  stored : ∀ m ∈ gone, m ∈ s.messages
  purgeable : ∀ m ∈ gone, m.isPurgeable t = true

variable {t : Instant} {gone : List Message} {s : Memory} {c : Call}

theorem purge_eq_without (s : Memory) (t : Instant) :
    (s.answer (.purge t)).2 = s.without (s.messages.filter (·.isPurgeable t)) := by
  change { s with messages := s.messages.filter (!·.isPurgeable t) } = _
  simp only [without, Memory.mk.injEq, and_self, and_true]
  apply List.filter_congr
  intro m hm
  simp [hm]

theorem Hides.purged (hd : s.Distinct) (t : Instant) :
    s.Hides t (s.messages.filter (·.isPurgeable t)) where
  distinct := hd
  stored := by
    intro m hm
    exact List.mem_of_mem_filter hm
  purgeable := by
    intro m hm
    exact (List.mem_filter.mp hm).2

/-! ## Looking up and changing messages -/

theorem Hides.find?_without (h : s.Hides t gone) (id : MessageId) :
    (s.without gone).find? id = (s.find? id).filter (· ∉ gone) := by
  rw [← h.distinct.find?_and, find?, without, List.find?_filter]
  congr 1
  funext m
  simp [and_comm]

theorem Hides.waiting (h : s.Hides t gone) {m : Message} (hm : m ∈ gone) : m.status = .waiting :=
  Message.isPurgeable_waiting (h.purgeable m hm)

theorem filter_without {p : Message → Bool} (h : ∀ m ∈ gone, p m = false) :
    (s.without gone).messages.filter p = s.messages.filter p := by
  rw [without, List.filter_filter]
  apply List.filter_congr
  intro m _
  by_cases hm : m ∈ gone
  · simp [h m hm]
  · simp [hm]

theorem Hides.without_modify (h : s.Hides t gone) {m : Message} {f : Message → Message}
    (hm : m ∈ s.messages) (hne : m ∉ gone) (hf : (f m).id = m.id) :
    (s.without gone).modify m.id f = (s.modify m.id f).without gone := by
  simp only [without, modify, Memory.mk.injEq, and_self, and_true, List.filter_map]
  congr 1
  apply List.filter_congr
  intro a ha
  by_cases hid : a.id = m.id
  · -- the changed message is no deleted one either, by its identifier
    obtain rfl := h.distinct.eq_of_id ha hm hid
    have hchanged : f a ∉ gone := by
      intro hgone
      have hsame := h.distinct.eq_of_id (h.stored _ hgone) hm hf
      exact hne (hsame ▸ hgone)
    simp [hne, hchanged]
  · simp [hid]

/-! ## One call -/

/-- What the two stores answer, and what becomes of them. -/
structure Matches (gone : List Message) (s : Memory) (c : Call) : Prop where
  reply : ((s.without gone).answer c).1 = (s.answer c).1 ∨
    ∃ m ∈ gone, ∃ token, c.settled? = some ⟨m.id, token⟩ ∧
      ∃ e e', ((s.without gone).answer c).1 = .error e ∧ (s.answer c).1 = .error e'
  store : ((s.without gone).answer c).2 = (s.answer c).2.without gone

theorem Hides.claim (h : s.Hides t gone) (routes : List String) (owner : Owner) {now : Instant}
    (hle : t ≤ now) : s.Matches gone (.claim routes owner now) := by
  have hsame : (s.without gone).messages.filter (·.isClaimable now routes) =
      s.messages.filter (·.isClaimable now routes) := by
    apply filter_without
    intro m hm
    exact Message.isClaimable_of_isPurgeable (h.purgeable m hm) hle routes
  constructor <;> simp only [Memory.answer, Memory.claim, hsame]
  · cases best? (s.messages.filter (·.isClaimable now routes)) <;> exact .inl rfl
  · cases hbest : best? (s.messages.filter (·.isClaimable now routes)) with
    | none => rfl
    | some m =>
        obtain ⟨hm, hclaimable⟩ := List.mem_filter.mp (best?_mem hbest)
        apply h.without_modify hm _ rfl
        intro hgone
        simp [Message.isClaimable_of_isPurgeable (h.purgeable m hgone) hle] at hclaimable

/-- A call that looks for one message finds it in both stores, or it finds a waiting message that was
to be purged. -/
theorem Hides.found (h : s.Hides t gone) (id : MessageId) :
    (s.without gone).find? id = none ∧ s.find? id = none ∨
      (∃ m ∈ s.messages, m ∉ gone ∧ m.id = id ∧
        (s.without gone).find? id = some m ∧ s.find? id = some m) ∨
      ∃ m ∈ gone, m.id = id ∧ m.status = .waiting ∧
        (s.without gone).find? id = none ∧ s.find? id = some m := by
  rw [h.find?_without]
  cases hfind : s.find? id with
  | none => exact .inl ⟨rfl, rfl⟩
  | some m =>
      obtain ⟨hm, hid⟩ := find?_some hfind
      by_cases hgone : m ∈ gone
      · exact .inr (.inr ⟨m, hgone, hid, h.waiting hgone, by simp [hgone], rfl⟩)
      · exact .inr (.inl ⟨m, hm, hgone, hid, by simp [hgone], rfl⟩)

theorem Hides.heartbeat (h : s.Hides t gone) (id : MessageId) (owner : Owner) (now : Instant) :
    s.Matches gone (.heartbeat id owner now) := by
  rcases h.found id with ⟨hw, hs⟩ | ⟨m, hm, hne, rfl, hw, hs⟩ | ⟨m, hgone, rfl, hwaiting, hw, hs⟩
  · constructor <;> simp [answer, Memory.heartbeat, hw, hs]
  · have hrenewed := h.without_modify (f := (·.renew now)) hm hne rfl
    by_cases hheld : m.status = .processing
    · cases howned : m.isOwnedBy owner <;>
        constructor <;> simp [answer, Memory.heartbeat, hw, hs, hheld, howned, hrenewed]
    · constructor <;> simp [answer, Memory.heartbeat, hw, hs, hheld]
  · constructor <;> simp [answer, Memory.heartbeat, hw, hs, hwaiting]

theorem Hides.complete (h : s.Hides t gone) (id : MessageId) (owner : Owner) :
    s.Matches gone (.complete id owner) := by
  rcases h.found id with ⟨hw, hs⟩ | ⟨m, hm, hne, rfl, hw, hs⟩ | ⟨m, hgone, rfl, hwaiting, hw, hs⟩
  · constructor <;> simp [answer, Memory.complete, hw, hs]
  · have hcompleted := h.without_modify (f := (·.completed)) hm hne rfl
    cases hterminal : m.status.isTerminal
    · cases howned : m.status = .processing && m.isOwnedBy owner <;>
        constructor <;> simp [answer, Memory.complete, hw, hs, hterminal, howned, hcompleted]
    · constructor <;> simp [answer, Memory.complete, hw, hs, hterminal]
  · -- one store has no such message, the other refuses it for its status
    constructor
    · refine .inr ⟨m, hgone, owner, rfl, .notFound m.id, .notOwned m.id, ?_, ?_⟩
      · simp [answer, Memory.complete, hw]
      · simp [answer, Memory.complete, hs, hwaiting, Status.isTerminal]
    · simp [answer, Memory.complete, hw, hs, hwaiting, Status.isTerminal]

theorem Hides.fail (h : s.Hides t gone) (id : MessageId) (owner : Owner) (reason : String) :
    s.Matches gone (.fail id owner reason) := by
  rcases h.found id with ⟨hw, hs⟩ | ⟨m, hm, hne, rfl, hw, hs⟩ | ⟨m, hgone, rfl, hwaiting, hw, hs⟩
  · constructor <;> simp [answer, Memory.fail, hw, hs]
  · have hfailed := h.without_modify (f := (·.failed reason)) hm hne rfl
    cases howned : m.status.canMoveTo .error && m.isOwnedBy owner <;>
      constructor <;> simp [answer, Memory.fail, hw, hs, howned, hfailed]
  · constructor
    · refine .inr ⟨m, hgone, owner, rfl, .notFound m.id, .notOwned m.id, ?_, ?_⟩
      · simp [answer, Memory.fail, hw]
      · simp [answer, Memory.fail, hs, hwaiting, Status.canMoveTo]
    · simp [answer, Memory.fail, hw, hs, hwaiting, Status.canMoveTo]

theorem Hides.scan (h : s.Hides t gone) (threshold : Instant) :
    s.Matches gone (.scan threshold) where
  reply := by
    apply Or.inl
    apply congrArg Except.ok
    apply filter_without
    intro m hm
    exact Message.leaseExpired_of_isPurgeable (h.purgeable m hm) threshold
  store := rfl

theorem Hides.recover (h : s.Hides t gone) (scanned : Message) {f : Message → Message}
    (hf : ∀ m, (f m).id = m.id) :
    (s.without gone).recover scanned f =
      ((s.recover scanned f).1, (s.recover scanned f).2.without gone) := by
  rcases h.found scanned.id with ⟨hw, hs⟩ | ⟨m, hm, hne, hid, hw, hs⟩ | ⟨m, -, -, hwaiting, hw, hs⟩
  · simp [Memory.recover, hw, hs]
  · have hchanged := h.without_modify hm hne (hf m)
    rw [hid] at hchanged
    cases hunchanged : m.leaseUnchanged scanned <;>
      simp [Memory.recover, hw, hs, hunchanged, hchanged]
  · simp [Memory.recover, hw, hs, Message.leaseUnchanged, hwaiting]

/-- A call of a consumer is answered alike, and the stores go on differing by the same messages. -/
theorem Hides.matches (h : s.Hides t gone) (hc : c.Consumes t) : s.Matches gone c := by
  cases c with
  | claim routes owner now => exact h.claim routes owner hc
  | heartbeat id owner now => exact h.heartbeat id owner now
  | complete id owner => exact h.complete id owner
  | fail id owner reason => exact h.fail id owner reason
  | scan threshold => exact h.scan threshold
  | reset scanned =>
      have hrecover := h.recover scanned (f := (·.reclaimed)) fun _ => rfl
      constructor <;> simp [Memory.answer, hrecover]
  | poison scanned reason =>
      have hrecover := h.recover scanned (f := (·.poisoned reason)) fun _ => rfl
      constructor <;> simp [Memory.answer, hrecover]
  | _ => cases hc

theorem Hides.step (h : s.Hides t gone) (hc : c.Consumes t) : (s.answer c).2.Hides t gone := by
  have heffect := answer_effect h.distinct c
  refine ⟨heffect.distinct h.distinct ?_, ?_, h.purgeable⟩
  · intro id hid
    cases hc.insertedId?.symm.trans hid
  · intro m hm
    have hstored := h.stored m hm
    have hpurgeable := h.purgeable m hm
    revert heffect
    generalize (s.answer c).1 = r, (s.answer c).2 = s'
    intro heffect
    cases heffect with
    | kept hmessages => exact hmessages ▸ hstored
    | scanned => exact hstored
    | added => exact List.mem_append_left _ hstored
    | @changed c r a a' hfind hchange =>
        obtain ⟨ha, -⟩ := find?_some hfind
        apply (mem_put ha hchange.keeps.id).mpr
        refine .inr ⟨hstored, ?_⟩
        intro hid
        obtain rfl := h.distinct.eq_of_id hstored ha hid
        exact Message.not_change_of_isPurgeable hpurgeable hc hchange
    | purged => cases hc

/-! ## Runs -/

theorem Hides.run {calls : List Call} (h : s.Hides t gone) (hcalls : ∀ c ∈ calls, c.Consumes t) :
    (afterAll answer s calls).Hides t gone ∧
      afterAll answer (s.without gone) calls = (afterAll answer s calls).without gone := by
  induction calls generalizing s with
  | nil => exact ⟨h, rfl⟩
  | cons c calls ih =>
      obtain ⟨hc, hrest⟩ := List.forall_mem_cons.mp hcalls
      have hnext := ih (h.step hc) hrest
      rw [← (h.matches hc).store] at hnext
      exact hnext

theorem afterAll_memory (s : Memory) (calls : List Call) :
    afterAll Backend.answer (.memory s) calls = .memory (afterAll answer s calls) := by
  induction calls generalizing s with
  | nil => rfl
  | cons c calls ih => exact ih _

theorem after_distinct {calls : List Call} (hfresh : (calls.filterMap Call.insertedId?).Nodup) :
    (after calls).Distinct := by
  have htakes : ∀ c ∈ calls, (Backend.memory .empty).Takes c := by
    intro c _ t ht
    cases ht
  obtain ⟨s, hs⟩ := (Backend.Orderly.start (.inl rfl)).run htakes hfresh
  rw [afterAll_memory] at hs
  cases hs.stores with
  | memory hd => exact hd

/-- Whoever claims at a time or later, renews, settles and recovers leases gets the same answers from
a store as from the one that was purged at that time. Only the settlement of a lease on a purged
message is refused with another error. The stores go on to differ by the purged messages alone, which
stay as they were. -/
theorem purge_unnoticed (earlier : List Call)
    (hfresh : (earlier.filterMap Call.insertedId?).Nodup) (t : Instant) (calls : List Call)
    (hcalls : ∀ c ∈ calls, c.Consumes t) :
    let s := after earlier
    let cleared := (s.answer (.purge t)).2
    let purged := s.messages.filter (·.isPurgeable t)
    (∀ done c rest, calls = done ++ c :: rest →
      let reply := ((afterAll answer s done).answer c).1
      let reply' := ((afterAll answer cleared done).answer c).1
      (c.settled? = none → reply' = reply) ∧
      (reply' ≠ reply → ∃ m ∈ purged, ∃ token, c.settled? = some ⟨m.id, token⟩ ∧
        ∃ e e', reply' = .error e ∧ reply = .error e')) ∧
    afterAll answer cleared calls = (afterAll answer s calls).without purged ∧
    ∀ m ∈ purged, m.status = .waiting ∧ m ∈ (afterAll answer s calls).messages := by
  intro s cleared purged
  have hcleared : cleared = s.without purged := purge_eq_without s t
  have hhides : s.Hides t purged := .purged (after_distinct hfresh) t
  obtain ⟨hlast, hdiffer⟩ := hhides.run hcalls
  rw [hcleared]
  refine ⟨?_, hdiffer, ?_⟩
  · intro done c rest hsplit
    have hdone : ∀ c ∈ done, c.Consumes t := by
      intro c hc
      exact hcalls c (hsplit ▸ List.mem_append_left _ hc)
    have hc : c.Consumes t := hcalls c (hsplit ▸ List.mem_append_right _ List.mem_cons_self)
    obtain ⟨hthen, hsame⟩ := hhides.run hdone
    rw [hsame]
    rcases (hthen.matches hc).reply with halike | hrefused
    · exact ⟨fun _ => halike, fun hne => absurd halike hne⟩
    · refine ⟨fun hnone => ?_, fun _ => hrefused⟩
      obtain ⟨m, -, token, hsettled, -⟩ := hrefused
      cases hnone.symm.trans hsettled
  · intro m hm
    exact ⟨hlast.waiting hm, hlast.stored m hm⟩

/-- One of two messages has expired, and both stores hand out the other one. -/
theorem purge_unnoticed_expired :
    let expired : Instant := ⟨1, 0, by decide⟩
    let earlier : List Call := [
      .insert { payload := [1], expiresAt := some expired } ⟨.ofNat 1⟩ .epoch,
      .insert { payload := [2] } ⟨.ofNat 2⟩ .epoch]
    let cleared := ((after earlier).answer (.purge expired)).2
    cleared.messages.length = 1 ∧
      ((after earlier).answer (.claim [] ⟨"a"⟩ expired)).1 =
        (cleared.answer (.claim [] ⟨"a"⟩ expired)).1 := by
  intro expired earlier cleared
  obtain ⟨hreplies, -⟩ := purge_unnoticed earlier (by decide) expired
    [.claim [] ⟨"a"⟩ expired, .complete ⟨.ofNat 2⟩ ⟨"a"⟩] (by decide)
  obtain ⟨hsame, -⟩ := hreplies [] _ _ rfl
  exact ⟨by decide, (hsame rfl).symm⟩

end Memory

end WorkQueue
