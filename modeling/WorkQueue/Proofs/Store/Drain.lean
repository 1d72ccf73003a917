import Mathlib
import WorkQueue.Proofs.Store.Lifecycle

/-! # Claims until there is none

The messages that a claim may take stand in one queue, by priority and then by insertion. Each claim
takes the first one and leaves the rest of the queue as it was, because a message under a lease is
not eligible and all others are untouched. So claims hand out the queue from its front to its end,
whoever makes them, and after that nothing.
-/

namespace WorkQueue

namespace Message

/-- The key of the claim order: the rank turned around, then the sequence number. -/
def claimKey (m : Message) : ℤᵒᵈ ×ₗ ℕ := toLex (OrderDual.toDual m.rank, m.sequence)

variable {a b m : Message}

theorem claimedBefore_iff : a.claimedBefore b = true ↔ a.claimKey < b.claimKey := by
  simp only [claimedBefore, claimKey, Prod.Lex.toLex_lt_toLex, OrderDual.toDual_lt_toDual,
    Bool.or_eq_true, Bool.and_eq_true, decide_eq_true_eq, OrderDual.toDual_inj]

theorem beginLease_not_claimable (m : Message) (owner : Owner) (now now' : Instant)
    (routes : List String) : (m.beginLease owner now).isClaimable now' routes = false := by
  simp [isClaimable, beginLease]

end Message

namespace Memory

variable {s : Memory} {routes : List String} {now : Instant} {queue : List Message}

/-! ## The first message of the queue -/

theorem best?_eq_none_iff {ms : List Message} : best? ms = none ↔ ms = [] := by
  cases ms with
  | nil => simp [best?]
  | cons m ms =>
      simp only [best?, reduceCtorEq, iff_false]
      split
      · simp
      · split <;> simp

theorem best?_le {ms : List Message} {b : Message} (h : best? ms = some b) :
    ∀ a ∈ ms, b.claimKey ≤ a.claimKey := by
  induction ms generalizing b with
  | nil => cases h
  | cons m ms ih =>
      simp only [best?] at h
      split at h
      · rename_i hnone
        obtain rfl := Option.some.inj h
        simp [best?_eq_none_iff.mp hnone]
      · rename_i c hc
        have hrest := ih hc
        split at h
        · rename_i hbefore
          obtain rfl := Option.some.inj h
          exact List.forall_mem_cons.mpr ⟨(Message.claimedBefore_iff.mp hbefore).le, hrest⟩
        · rename_i hbefore
          obtain rfl := Option.some.inj h
          rw [Message.claimedBefore_iff, not_lt] at hbefore
          exact List.forall_mem_cons.mpr ⟨le_rfl, fun a ha => hbefore.trans (hrest a ha)⟩

/-- The eligible messages in the order of the claim. -/
structure Queue (s : Memory) (routes : List String) (now : Instant) (queue : List Message) :
    Prop where
  eligible : queue.Perm (s.messages.filter (·.isClaimable now routes))
  ordered : queue.Pairwise fun a b => a.claimKey < b.claimKey

theorem Queue.best? (h : s.Queue routes now queue) :
    best? (s.messages.filter (·.isClaimable now routes)) = queue.head? := by
  cases queue with
  | nil =>
      rw [List.nil_perm.mp h.eligible]
      rfl
  | cons m rest =>
      cases hbest : Memory.best? (s.messages.filter (·.isClaimable now routes)) with
      | none =>
          have hempty := h.eligible
          rw [best?_eq_none_iff.mp hbest] at hempty
          cases hempty.eq_nil
      | some b =>
          have hle := best?_le hbest m (h.eligible.subset List.mem_cons_self)
          rcases List.mem_cons.mp (h.eligible.mem_iff.mpr (best?_mem hbest)) with rfl | hb
          · rfl
          · exact absurd hle (not_le.mpr (List.rel_of_pairwise_cons h.ordered hb))

theorem exists_queue (hs : (s.messages.map (·.sequence)).Nodup) (routes : List String)
    (now : Instant) : ∃ queue, s.Queue routes now queue := by
  let eligible := s.messages.filter (·.isClaimable now routes)
  have hperm := eligible.mergeSort_perm fun a b => decide (a.claimKey ≤ b.claimKey)
  refine ⟨_, hperm, ?_⟩
  have hsorted : (eligible.mergeSort fun a b => decide (a.claimKey ≤ b.claimKey)).Pairwise
      fun a b => a.claimKey ≤ b.claimKey := by
    refine (List.pairwise_mergeSort (fun a b c => ?_) (fun a b => ?_) eligible).imp
      of_decide_eq_true
    · simpa only [decide_eq_true_eq] using le_trans
    · simpa only [Bool.or_eq_true, decide_eq_true_eq] using le_total _ _
  have hnodup : (eligible.map (·.sequence)).Nodup := hs.sublist (List.filter_sublist.map _)
  have hdifferent : (eligible.mergeSort fun a b => decide (a.claimKey ≤ b.claimKey)).Pairwise
      fun a b => a.sequence ≠ b.sequence :=
    List.pairwise_map.mp ((hperm.map _).nodup_iff.mpr hnodup)
  refine hsorted.imp₂ (fun a b hle hne => ?_) hdifferent
  exact lt_of_le_of_ne hle fun heq => hne (congrArg (fun k => (ofLex k).2) heq)

/-! ## Claims one after the other -/

/-- The store with some messages leased, each to its owner. -/
def leased (s : Memory) (leases : List (MessageId × Owner)) (now : Instant) : Memory :=
  { s with messages := s.messages.map fun m => (leases.lookup m.id).elim m (m.beginLease · now) }

/-- The claims of owners one after the other, with their answers. -/
def claimEach (s : Memory) (routes : List String) (now : Instant) :
    List Owner → List (Except StoreError (Option Message)) × Memory
  | [] => ([], s)
  | owner :: owners =>
    let (reply, s) := s.answer (.claim routes owner now)
    let (replies, s) := s.claimEach routes now owners
    (reply :: replies, s)

theorem leased_nil (s : Memory) (now : Instant) : s.leased [] now = s := by
  have hmessages : s.messages.map (fun m => m) = s.messages := List.map_id _
  simp [leased, hmessages]

theorem Queue.claim_none (h : s.Queue routes now []) (owner : Owner) :
    s.answer (.claim routes owner now) = (.ok none, s) := by
  rw [answer, claim, h.best?]
  rfl

theorem Queue.ids (h : s.Queue routes now queue) (hd : s.Distinct) : (queue.map (·.id)).Nodup :=
  (h.eligible.map _).nodup_iff.mpr (hd.sublist (List.filter_sublist.map _))

theorem Queue.rest {m : Message} {rest : List Message} (h : s.Queue routes now (m :: rest))
    (hd : s.Distinct) (owner : Owner) : (s.put (m.beginLease owner now)).Queue routes now rest := by
  have hm : m ∈ s.messages := List.mem_of_mem_filter (h.eligible.subset List.mem_cons_self)
  have hothers : ∀ a ∈ rest, a.id ≠ m.id := by
    have hids := List.nodup_cons.mp (h.ids hd)
    exact fun a ha heq => hids.1 (List.mem_map.mpr ⟨a, ha, heq⟩)
  have hrest : (m :: rest).filter (fun a => some a.id ≠ some m.id) = rest := by
    rw [List.filter_cons_of_neg (by simp), List.filter_eq_self]
    intro a ha
    simpa using hothers a ha
  have hout : (s.put (m.beginLease owner now)).messages.filter (·.isClaimable now routes) =
      (s.messages.filter (·.isClaimable now routes)).filter
        (fun a => some a.id ≠ some m.id) := by
    have hput : (m.beginLease owner now).id = m.id := rfl
    rw [List.filter_comm, ← filter_put hput, ← List.filter_comm, List.filter_filter]
    refine List.filter_congr fun a ha => ?_
    rcases (mem_put hm hput).mp ha with rfl | ⟨-, hne⟩
    · simp [Message.beginLease_not_claimable]
    · simp [hne]
  refine ⟨?_, h.ordered.of_cons⟩
  rw [hout, ← hrest]
  exact h.eligible.filter _

/-- A claim hands out the first message of the queue. -/
theorem Queue.claim_first {m : Message} {rest : List Message} (h : s.Queue routes now (m :: rest))
    (hd : s.Distinct) (owner : Owner) :
    s.answer (.claim routes owner now) =
      (.ok (some (m.beginLease owner now)), s.put (m.beginLease owner now)) := by
  have hm : m ∈ s.messages := List.mem_of_mem_filter (h.eligible.subset List.mem_cons_self)
  rw [answer, claim, h.best?]
  dsimp only [List.head?_cons]
  rw [hd.modify_eq_put hm rfl]

theorem put_leased {m : Message} {owner : Owner} {leases : List (MessageId × Owner)}
    (hd : s.Distinct) (hm : m ∈ s.messages) (hfree : leases.lookup m.id = none) :
    (s.put (m.beginLease owner now)).leased leases now =
      s.leased ((m.id, owner) :: leases) now := by
  simp only [leased, put_messages, List.map_map]
  have hmessages : s.messages.map ((fun a => (leases.lookup a.id).elim a (a.beginLease · now)) ∘
        fun a => if a.id = (m.beginLease owner now).id then m.beginLease owner now else a) =
      s.messages.map fun a =>
        (((m.id, owner) :: leases).lookup a.id).elim a (a.beginLease · now) := by
    refine List.map_congr_left fun a ha => ?_
    have hput : (m.beginLease owner now).id = m.id := rfl
    rw [Function.comp_apply, hput]
    by_cases hid : a.id = m.id
    · obtain rfl := hd.eq_of_id ha hm hid
      simp [hput, hfree]
    · simp [hid, List.lookup_cons, beq_eq_false_iff_ne.mpr hid]
  rw [hmessages]
  rfl

/-- The claims hand out the queue from its front, each to its owner, and then nothing. -/
theorem Queue.claimEach_eq (h : s.Queue routes now queue) (hd : s.Distinct) (owners : List Owner) :
    s.claimEach routes now owners =
      (owners.mapIdx fun k owner => .ok (queue[k]?.map (·.beginLease owner now)),
        s.leased ((queue.map (·.id)).zip owners) now) := by
  induction owners generalizing s queue with
  | nil => simp [claimEach, leased_nil]
  | cons owner owners ih =>
      rw [claimEach, List.mapIdx_cons]
      cases queue with
      | nil =>
          rw [h.claim_none]
          dsimp only
          rw [ih h hd]
          simp
      | cons m rest =>
          have hm : m ∈ s.messages := List.mem_of_mem_filter (h.eligible.subset List.mem_cons_self)
          rw [h.claim_first hd]
          dsimp only
          rw [ih (h.rest hd owner) (hd.put hm rfl)]
          rw [put_leased hd hm]
          · simp
          · rw [List.lookup_eq_none_iff]
            intro p hp
            have hids := (List.nodup_cons.mp (h.ids hd)).1
            have hmem := (List.of_mem_zip hp).1
            simpa using fun heq : m.id = p.1 => hids (show m.id ∈ _ from heq ▸ hmem)

/-! ## What was inserted -/

/-- The stored messages come from insertions, stand in the order of these, and have what their
producers gave them. -/
structure Inserted (calls : List Call) (s : Memory) : Prop where
  distinct : s.Distinct
  sequences : (s.messages.map (·.sequence)).Pairwise (· < ·)
  last : ∀ m ∈ s.messages, m.sequence ≤ s.lastSequence
  order : (s.messages.map (·.id)).Sublist (calls.filterMap Call.insertedId?)
  origin : ∀ m ∈ s.messages, ∃ new stamp, Call.insert new m.id stamp ∈ calls ∧
    (new.toMessage m.id m.sequence stamp).Keeps m

theorem Inserted.empty : Inserted [] .empty where
  distinct := List.nodup_nil
  sequences := .nil
  last := by simp [Memory.empty]
  order := .slnil
  origin := by simp [Memory.empty]

variable {calls : List Call} {s' : Memory} {c : Call} {r : c.Reply}

theorem Inserted.fresh (hs : s.Inserted calls)
    (hfresh : ((calls ++ [c]).filterMap Call.insertedId?).Nodup) :
    ∀ id ∈ c.insertedId?, ∀ m ∈ s.messages, m.id ≠ id := by
  intro id hid m hm hsame
  rw [List.filterMap_append, List.nodup_append] at hfresh
  refine hfresh.2.2 m.id (hs.order.subset (List.mem_map_of_mem hm)) id ?_ hsame
  rw [List.filterMap_cons, Option.mem_def.mp hid]
  exact List.mem_cons_self

theorem order_of_effect (h : Effect id s c r s') (hd : s.Distinct) :
    (s'.messages.map (·.id)).Sublist (s.messages.map (·.id) ++ c.insertedId?.toList) := by
  cases h with
  | kept hmessages =>
      rw [hmessages]
      exact List.sublist_append_left _ _
  | scanned => exact List.sublist_append_left _ _
  | added => simp [add, Call.insertedId?, NewMessage.toMessage]
  | changed hfind hchange =>
      rw [hd.map_put (find?_some hfind).1 hchange.keeps.id hchange.keeps.id]
      exact List.sublist_append_left _ _
  | purged => exact (List.filter_sublist.map _).trans (List.sublist_append_left _ _)

theorem Inserted.step (hs : s.Inserted calls) (h : Effect id s c r s')
    (hfresh : ((calls ++ [c]).filterMap Call.insertedId?).Nodup) : s'.Inserted (calls ++ [c]) := by
  obtain ⟨hsequences, hlast⟩ := sequences_of_effect h hs.distinct hs.sequences hs.last
  refine ⟨h.distinct hs.distinct (hs.fresh hfresh), hsequences, hlast, ?_, fun m' hm' => ?_⟩
  · rw [List.filterMap_append]
    refine (order_of_effect h hs.distinct).trans (hs.order.append ?_)
    cases hid : c.insertedId? <;> simp [hid]
  · rcases h.origin hm' with hm | ⟨m, hm, hchange⟩ | ⟨new, id, stamp, rfl, rfl⟩
    · obtain ⟨new, stamp, hcall, hkeeps⟩ := hs.origin m' hm
      exact ⟨new, stamp, List.mem_append_left _ hcall, hkeeps⟩
    · obtain ⟨new, stamp, hcall, hkeeps⟩ := hs.origin m hm
      have hnext := hchange.keeps
      refine ⟨new, stamp, ?_, ?_⟩
      · rw [hnext.id]
        exact List.mem_append_left _ hcall
      · rw [hnext.id, hnext.sequence]
        exact hkeeps.trans hnext
    · exact ⟨new, stamp, by simp [NewMessage.toMessage], by rw [new.cut_id]; exact .refl _⟩

theorem Inserted.after (hfresh : (calls.filterMap Call.insertedId?).Nodup) :
    (Memory.after calls).Inserted calls := by
  induction calls using List.reverseRecOn with
  | nil => exact .empty
  | append_singleton calls c ih =>
      have hprefix : (calls.filterMap Call.insertedId?).Nodup := by
        rw [List.filterMap_append, List.nodup_append] at hfresh
        exact hfresh.1
      have hs := ih hprefix
      rw [after_append]
      exact hs.step (answer_effect hs.distinct c) hfresh

theorem pair_sublist {ms : List Message} (h : (ms.map (·.sequence)).Pairwise (· < ·))
    {a b : Message} (ha : a ∈ ms) (hb : b ∈ ms) (hlt : a.sequence < b.sequence) :
    [a, b].Sublist ms := by
  induction ms with
  | nil => cases ha
  | cons m rest ih =>
      obtain ⟨hfirst, hrest⟩ := List.pairwise_cons.mp h
      rcases List.mem_cons.mp ha with rfl | ha'
      · rcases List.mem_cons.mp hb with rfl | hb'
        · exact absurd hlt (lt_irrefl _)
        · exact (List.singleton_sublist.mpr hb').cons_cons a
      · rcases List.mem_cons.mp hb with rfl | hb'
        · exact absurd (hfirst _ (List.mem_map_of_mem ha')) hlt.asymm
        · exact (ih hrest ha' hb').cons m

theorem Inserted.before (hs : s.Inserted calls) {a b : Message} (ha : a ∈ s.messages)
    (hb : b ∈ s.messages) (hlt : a.sequence < b.sequence) :
    [a.id, b.id].Sublist (calls.filterMap Call.insertedId?) :=
  ((pair_sublist hs.sequences ha hb hlt).map Message.id).trans hs.order

/-- What claims of one time make of the store that calls lead to. -/
structure Drained (calls : List Call) (routes : List String) (now : Instant)
    (queue : List Message) : Prop where
  /-- The queue is made of the messages that may be claimed. -/
  eligible : queue.Perm ((after calls).messages.filter (·.isClaimable now routes))
  once : (queue.map (·.id)).Nodup
  /-- The higher priority comes first, and then the earlier insertion. -/
  ordered : queue.Pairwise fun a b => b.rank < a.rank ∨
    a.rank = b.rank ∧ [a.id, b.id].Sublist (calls.filterMap Call.insertedId?)
  /-- What is handed out has what was inserted. -/
  kept : ∀ m ∈ queue, ∀ owner, ∃ new stamp, Call.insert new m.id stamp ∈ calls ∧
    (new.toMessage m.id m.sequence stamp).Keeps (m.beginLease owner now)
  /-- The claims hand out the queue, each its message, and then nothing; all else stays. -/
  claims : ∀ owners, (after calls).claimEach routes now owners =
    (owners.mapIdx fun k owner => .ok (queue[k]?.map (·.beginLease owner now)),
      (after calls).leased ((queue.map (·.id)).zip owners) now)

/-- Claims that are made one after the other, by whatever owners, hand out the eligible messages in
order, each of them once, and then nothing. Identifiers are drawn fresh. -/
theorem claims_in_order (calls : List Call) (hfresh : (calls.filterMap Call.insertedId?).Nodup)
    (routes : List String) (now : Instant) : ∃ queue, Drained calls routes now queue := by
  have hs := Inserted.after hfresh
  obtain ⟨queue, hqueue⟩ := exists_queue (hs.sequences.imp Nat.ne_of_lt) routes now
  have hmem {m : Message} (hm : m ∈ queue) : m ∈ (after calls).messages :=
    List.mem_of_mem_filter (hqueue.eligible.subset hm)
  refine ⟨queue, hqueue.eligible, hqueue.ids hs.distinct, ?_, fun m hm owner => ?_,
    hqueue.claimEach_eq hs.distinct⟩
  · refine hqueue.ordered.imp_of_mem fun {a b} ha hb hlt => ?_
    rcases Prod.Lex.toLex_lt_toLex.mp hlt with hrank | ⟨hrank, hsequence⟩
    · exact .inl hrank
    · exact .inr ⟨hrank, hs.before (hmem ha) (hmem hb) hsequence⟩
  · obtain ⟨new, stamp, hcall, hkeeps⟩ := hs.origin m (hmem hm)
    exact ⟨new, stamp, hcall, hkeeps.trans (Message.keeps_of_headers rfl)⟩

/-- Two workers take turns: an equal priority goes by insertion, none counts as 0, and a route that
is not served and an expiry that has passed are left out. -/
theorem claims_in_order_mixed :
    let message (id : Nat) (priority : Option Int32) : Call :=
      .insert { payload := [1], priority } ⟨.ofNat id⟩ .epoch
    let calls := [message 1 (some 1), message 2 (some 5), message 3 none,
      .insert { payload := [2], priority := some 9, route := some "mail" } ⟨.ofNat 4⟩ .epoch,
      .insert { payload := [3], expiresAt := some .epoch } ⟨.ofNat 5⟩ .epoch,
      message 6 (some 5), message 7 (some (-2))]
    let owners : List Owner := [⟨"a/1"⟩, ⟨"b/1"⟩, ⟨"a/2"⟩, ⟨"a/3"⟩, ⟨"b/2"⟩, ⟨"b/3"⟩]
    (calls.filterMap Call.insertedId?).Nodup ∧
      ((after calls).claimEach ["post"] .epoch owners).1.map
          (fun reply => (reply.toOption.bind id).map (·.id)) =
        [2, 6, 1, 3, 7].map (fun n => some ⟨.ofNat n⟩) ++ [none] ∧
      ∃ queue, Drained calls ["post"] .epoch queue := by
  intro message calls owners
  have hfresh : (calls.filterMap Call.insertedId?).Nodup := by decide +kernel
  exact ⟨hfresh, by decide +kernel, claims_in_order calls hfresh ["post"] .epoch⟩

end Memory

end WorkQueue
