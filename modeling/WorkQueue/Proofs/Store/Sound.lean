import Mathlib
import WorkQueue.Proofs.Store.Lifecycle

/-! # Stores and their logs

A log lists the calls made so far with their replies. While identifiers and tokens are drawn fresh
and leases are taken back for scanned messages only, the log tells enough about the stored messages:
a scanned message whose lease is still the stored one differs from the stored message in its
heartbeat at most, and no two stored messages keep each other from being enqueued.
-/

namespace WorkQueue

/-- No earlier call drew the identifier or the token that the call draws. -/
structure Call.Fresh (log : List Entry) (c : Call) : Prop where
  id_fresh : ∀ id ∈ c.insertedId?, ∀ e ∈ log, e.call.insertedId? ≠ some id
  token_fresh : ∀ token ∈ c.claimToken?, ∀ e ∈ log, e.call.claimToken? ≠ some token

/-- The call draws what it draws fresh, and takes leases back of scanned messages only. -/
structure Call.Admissible (log : List Entry) (c : Call) : Prop extends c.Fresh log where
  snapshot_found : ∀ scanned ∈ c.snapshot?, ∃ e ∈ log, scanned ∈ e.found

instance (log : List Entry) (c : Call) : Decidable (c.Fresh log) :=
  decidable_of_iff ((∀ id ∈ c.insertedId?, ∀ e ∈ log, e.call.insertedId? ≠ some id) ∧
      ∀ token ∈ c.claimToken?, ∀ e ∈ log, e.call.claimToken? ≠ some token)
    ⟨fun h => ⟨h.1, h.2⟩, fun h => ⟨h.1, h.2⟩⟩

instance (log : List Entry) (c : Call) : Decidable (c.Admissible log) :=
  decidable_of_iff (c.Fresh log ∧ ∀ scanned ∈ c.snapshot?, ∃ e ∈ log, scanned ∈ e.found)
    ⟨fun h => ⟨h.1, h.2⟩, fun h => ⟨h.1, h.2⟩⟩

namespace Message

/-- The two messages are of one job. -/
def SameJob (a b : Message) : Prop :=
  ∃ k ∈ a.job, ∃ k' ∈ b.job, k.name = k'.name

theorem SameJob.symm {a b : Message} (h : a.SameJob b) : b.SameJob a := by
  obtain ⟨k, hk, k', hk', hname⟩ := h
  exact ⟨k', hk', k, hk, hname.symm⟩

theorem sameJob_of_blocks {a b : Message} (h : b.job.any a.blocks = true) : a.SameJob b := by
  obtain ⟨k', hk', hblocks⟩ := Option.any_eq_true _ _ |>.mp h
  simp only [blocks] at hblocks
  split at hblocks
  · cases hblocks
  · rename_i k hk
    rw [Bool.and_eq_true, beq_iff_eq] at hblocks
    exact ⟨k, hk, k', hk', hblocks.1⟩

theorem blocks_of_sameJob {a b : Message} (ha : a.IsUnconsumed) (h : a.SameJob b) :
    b.job.any a.blocks = true := by
  obtain ⟨k, hk, k', hk', hname⟩ := h
  rw [Option.mem_def] at hk hk'
  rw [hk', Option.any_some]
  simp only [blocks, hk, hname, beq_self_eq_true, Bool.true_and]
  rcases ha with h | h <;> rw [h]

variable {cut : Instant → Instant} {c : Call} {r : c.Reply} {m m' : Message}

theorem Change.owner (h : m.Change cut c r m') (hm : m.Coherent) {token : Owner}
    (htoken : m'.ownerToken = some token) :
    c.claimToken? = some token ∨
      m.ownerToken = some token ∧ m' = { m with lastHeartbeat := m'.lastHeartbeat } := by
  cases h with
  | claim => exact .inl htoken
  | renew => exact .inr ⟨htoken, rfl⟩
  | complete | fail | reset | poison => cases htoken
  | requeue hrequeue =>
      obtain ⟨hstatus, -, -, rfl⟩ := requeue?_eq_some hrequeue
      obtain ⟨howner, -⟩ := hm.released (by rw [hstatus]; exact fun hs => by cases hs)
      cases howner.symm.trans htoken

theorem Change.unconsumed_or_error (h : m.Change cut c r m') :
    m.IsUnconsumed ∨ m.status = .error := by
  cases h with
  | claim hclaimable => exact .inl (.inl (isClaimable_waiting hclaimable))
  | renew hheld | complete hheld | fail hheld => exact .inl (.inr hheld)
  | reset _ hunchanged | poison _ hunchanged =>
      exact .inl (.inr (leaseUnchanged_iff.mp hunchanged).1)
  | requeue hrequeue => exact .inr (requeue?_eq_some hrequeue).1

end Message

namespace Memory

/-- No message keeps the job of an unconsumed one from being enqueued. -/
def Lone (s : Memory) : Prop :=
  ∀ a ∈ s.messages, ∀ b ∈ s.messages, a.id ≠ b.id → b.IsUnconsumed → b.job.any a.blocks = false

/-- What a log tells about the stored messages. -/
structure Sound (log : List Entry) (s : Memory) : Prop where
  coherent : ∀ m ∈ s.messages, m.Coherent
  distinct : s.Distinct
  lone : s.Lone
  known : ∀ m ∈ s.messages, ∃ e ∈ log, e.call.insertedId? = some m.id
  tokens : ∀ m ∈ s.messages, ∀ token ∈ m.ownerToken, ∃ e ∈ log, e.call.claimToken? = some token
  /-- A scanned message was owned, and it is still the stored one, but for the heartbeat, as long as
  the owner is the same. -/
  scanned : ∀ e ∈ log, ∀ found ∈ e.found, ∃ token, found.ownerToken = some token ∧
    (∃ e' ∈ log, e'.call.claimToken? = some token) ∧
    ∀ m ∈ s.messages, m.id = found.id → m.ownerToken = some token →
      found = { m with lastHeartbeat := found.lastHeartbeat }

theorem Sound.empty : Sound [] .empty where
  coherent := by simp [Memory.empty]
  distinct := List.nodup_nil
  lone := by simp [Lone, Memory.empty]
  known := by simp [Memory.empty]
  tokens := by simp [Memory.empty]
  scanned := by simp

variable {log : List Entry} {cut : Instant → Instant} {s s' : Memory} {c : Call} {r : c.Reply}

theorem isBlocked_iff {messages : List Message} {job : Option JobSlotKey} :
    isBlocked messages job = true ↔ ∃ a ∈ messages, job.any a.blocks = true := by
  cases job with
  | none => simp [isBlocked]
  | some k => simp [isBlocked]

theorem Lone.effect (hs : s.Lone) (h : Effect cut s c r s') : s'.Lone := by
  cases h with
  | kept hmessages =>
      rw [Lone, hmessages]
      exact hs
  | scanned => exact hs
  | @added new id stamp hfree =>
      have hnone : ∀ a ∈ s.messages,
          ¬(new.cut cut).job.any a.blocks = true := fun a ha hblocks => by
        have := isBlocked_iff.mpr ⟨a, ha, hblocks⟩
        rw [hfree] at this
        cases this
      intro a ha b hb hne hb'
      rw [Bool.eq_false_iff]
      intro hblocks
      rcases List.mem_append.mp ha with ha | ha <;> rcases List.mem_append.mp hb with hb | hb
      · exact absurd hblocks (Bool.eq_false_iff.mp (hs a ha b hb hne hb'))
      · obtain rfl := List.mem_singleton.mp hb
        exact hnone a ha hblocks
      · obtain rfl := List.mem_singleton.mp ha
        exact hnone b hb (Message.blocks_of_sameJob hb' (Message.sameJob_of_blocks hblocks).symm)
      · obtain rfl := List.mem_singleton.mp ha
        obtain rfl := List.mem_singleton.mp hb
        exact hne rfl
  | @changed c r m m' hfind hchange hfree =>
      have hm := (find?_some hfind).1
      have hkeeps := hchange.keeps
      -- nothing blocks the changed message: it blocked as much before, or a requeue checked it
      have hnone : ∀ a ∈ s.messages, a.id ≠ m.id → ¬m'.job.any a.blocks = true := by
        intro a ha hne hblocks
        rcases hchange.unconsumed_or_error with hm' | herror
        · have := hs a ha m hm hne hm'
          rw [hkeeps.job] at hblocks
          exact absurd hblocks (Bool.eq_false_iff.mp this)
        · have hmem : a ∈ s.messages.filter (·.id ≠ m.id) :=
            List.mem_filter.mpr ⟨ha, decide_eq_true hne⟩
          have := isBlocked_iff.mpr ⟨a, hmem, hblocks⟩
          rw [hfree herror] at this
          cases this
      intro a ha b hb hne hb'
      rw [Bool.eq_false_iff]
      intro hblocks
      rcases (mem_put hm hkeeps.id).mp ha with rfl | ⟨holda, hane⟩ <;>
        rcases (mem_put hm hkeeps.id).mp hb with rfl | ⟨holdb, hbne⟩
      · exact hne rfl
      · exact hnone b holdb hbne
          (Message.blocks_of_sameJob hb' (Message.sameJob_of_blocks hblocks).symm)
      · exact hnone a holda hane hblocks
      · exact absurd hblocks (Bool.eq_false_iff.mp (hs a holda b holdb hne hb'))
  | purged =>
      exact fun a ha b hb => hs a (List.mem_of_mem_filter ha) b (List.mem_of_mem_filter hb)

theorem Sound.fresh (hs : s.Sound log) (hc : c.Admissible log) :
    ∀ id ∈ c.insertedId?, ∀ m ∈ s.messages, m.id ≠ id := by
  rintro id hid m hm rfl
  obtain ⟨e, he, hknown⟩ := hs.known m hm
  exact hc.id_fresh m.id hid e he hknown

/-- A scanned message whose lease did not change is the stored message. -/
theorem Sound.scanned_eq (hs : s.Sound log) {e : Entry} (he : e ∈ log) {scanned m : Message}
    (hscanned : scanned ∈ e.found) (hm : m ∈ s.messages) (hid : m.id = scanned.id)
    (hunchanged : m.leaseUnchanged scanned = true) : scanned = m := by
  obtain ⟨token, htoken, -, hcurrent⟩ := hs.scanned e he scanned hscanned
  obtain ⟨-, howner, hbeat⟩ := Message.leaseUnchanged_iff.mp hunchanged
  have := hcurrent m hm hid (howner.trans htoken)
  rw [← hbeat] at this
  exact this

theorem found_stored (hs : s.Sound log) (h : Effect cut s c r s') {found : Message}
    (hfound : found ∈ Entry.found ⟨c, r⟩) :
    s'.messages = s.messages ∧ found ∈ s.messages ∧ ∃ token, found.ownerToken = some token := by
  cases h with
  | kept _ _ _ hnone =>
      rw [hnone] at hfound
      cases hfound
  | scanned =>
      obtain ⟨hmem, hexpired⟩ := List.mem_filter.mp hfound
      have hheld := (hs.coherent found hmem).held.mp (Message.leaseExpired_processing hexpired)
      exact ⟨rfl, hmem, Option.isSome_iff_exists.mp hheld.1⟩
  | added | purged => cases hfound
  | changed _ hchange => cases hchange <;> cases hfound

theorem Sound.scanned_step (hs : s.Sound log) (hc : c.Admissible log) (h : Effect cut s c r s')
    {found : Message} {token : Owner} (htoken : ∃ e ∈ log, e.call.claimToken? = some token)
    (hcurrent : ∀ m ∈ s.messages, m.id = found.id → m.ownerToken = some token →
      found = { m with lastHeartbeat := found.lastHeartbeat }) :
    ∀ m ∈ s'.messages, m.id = found.id → m.ownerToken = some token →
      found = { m with lastHeartbeat := found.lastHeartbeat } := by
  intro m' hm' hid howner
  rcases h.origin hm' with hm | ⟨m, hm, hchange⟩ | ⟨new, id, stamp, -, rfl⟩
  · exact hcurrent m' hm hid howner
  · rcases hchange.owner (hs.coherent m hm) howner with hclaim | ⟨howner, hrenewed⟩
    · obtain ⟨e, he, hused⟩ := htoken
      exact absurd hused (hc.token_fresh token hclaim e he)
    · have := hcurrent m hm (hchange.keeps.id.symm.trans hid) howner
      rw [hrenewed]
      exact this
  · cases howner

/-- An admissible call leaves the log sound. -/
theorem Sound.step (hs : s.Sound log) (hc : c.Admissible log) (h : Effect cut s c r s') :
    s'.Sound (log ++ [⟨c, r⟩]) := by
  refine ⟨fun m' hm' => ?_, h.distinct hs.distinct (hs.fresh hc), hs.lone.effect h,
    fun m' hm' => ?_, fun m' hm' token htoken => ?_, fun e he found hfound => ?_⟩
  · rcases h.origin hm' with hm | ⟨m, hm, hchange⟩ | ⟨new, id, stamp, -, rfl⟩
    · exact hs.coherent m' hm
    · exact hchange.coherent (hs.coherent m hm)
    · exact toMessage_coherent _ _ _ _
  · rcases h.origin hm' with hm | ⟨m, hm, hchange⟩ | ⟨new, id, stamp, rfl, rfl⟩
    · obtain ⟨e, he, hknown⟩ := hs.known m' hm
      exact ⟨e, List.mem_append_left _ he, hknown⟩
    · obtain ⟨e, he, hknown⟩ := hs.known m hm
      exact ⟨e, List.mem_append_left _ he, by rw [hchange.keeps.id, hknown]⟩
    · exact ⟨_, List.mem_append_right _ (List.mem_singleton_self _), rfl⟩
  · rcases h.origin hm' with hm | ⟨m, hm, hchange⟩ | ⟨new, id, stamp, -, rfl⟩
    · obtain ⟨e, he, hused⟩ := hs.tokens m' hm token htoken
      exact ⟨e, List.mem_append_left _ he, hused⟩
    · rcases hchange.owner (hs.coherent m hm) htoken with hclaim | ⟨howner, -⟩
      · exact ⟨_, List.mem_append_right _ (List.mem_singleton_self _), hclaim⟩
      · obtain ⟨e, he, hused⟩ := hs.tokens m hm token howner
        exact ⟨e, List.mem_append_left _ he, hused⟩
    · cases htoken
  · rcases List.mem_append.mp he with he | he
    · obtain ⟨token, howner, hused, hcurrent⟩ := hs.scanned e he found hfound
      refine ⟨token, howner, ?_, hs.scanned_step hc h hused hcurrent⟩
      obtain ⟨e', he', hused⟩ := hused
      exact ⟨e', List.mem_append_left _ he', hused⟩
    · obtain rfl := List.mem_singleton.mp he
      obtain ⟨hmessages, hmem, token, howner⟩ := found_stored hs h hfound
      obtain ⟨e', he', hused⟩ := hs.tokens found hmem token howner
      refine ⟨token, howner, ⟨e', List.mem_append_left _ he', hused⟩, fun m hm hid _ => ?_⟩
      rw [hmessages] at hm
      rw [hs.distinct.eq_of_id hm hmem hid]

end Memory

end WorkQueue
