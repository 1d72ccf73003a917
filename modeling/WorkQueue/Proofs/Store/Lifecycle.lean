import Mathlib
import WorkQueue.Proofs.Store.Effect

/-! # The lifecycle of stored messages

Whatever calls are made, every stored message has a lease exactly while it is processing, moves
along the legal moves only, and keeps all that its producer gave it. A message is lost to a purge
and to nothing else.
-/

namespace WorkQueue

namespace Message

/-- The second message is what one call may make of the first. -/
structure Advances (m m' : Message) : Prop extends m.Keeps m' where
  status : m'.status = m.status ∨ m.status.canMoveTo m'.status = true
  complete : m.status = .complete → m' = m
  retryCount : m'.retryCount = m.retryCount ∨ m'.retryCount = m.retryCount + 1

/-- The status of a message agrees with its lease and with the queue's own headers. -/
structure Coherent (m : Message) : Prop where
  held : m.status = .processing ↔ m.ownerToken.isSome = true ∧ m.lastHeartbeat.isSome = true
  released : m.status ≠ .processing → m.ownerToken = none ∧ m.lastHeartbeat = none
  reason : m.status = .error → (m.headers.get? errorHeader).isSome = true
  retries : 0 < m.retryCount →
    m.headers.get? retryHeader = some (Bytes.ofText (Numeral.text m.retryCount))

theorem Advances.refl (m : Message) : m.Advances m :=
  ⟨.refl m, .inl rfl, fun _ => rfl, .inl rfl⟩

variable {cut : Instant → Instant} {c : Call} {r : c.Reply} {m m' : Message}

theorem Change.advances (h : m.Change cut c r m') (hretry : m.retryCount + 1 < UInt32.size) :
    m.Advances m' := by
  have hkeeps := h.keeps
  have hnext := nextRetry_eq hretry
  cases h with
  | claim hclaimable =>
      have hstatus := isClaimable_waiting hclaimable
      exact ⟨hkeeps, .inr (by rw [hstatus]; rfl), fun hc => (by cases hstatus.symm.trans hc),
        .inl rfl⟩
  | renew hheld => exact ⟨hkeeps, .inl rfl, fun hc => (by cases hheld.symm.trans hc), .inl rfl⟩
  | complete hheld | fail hheld =>
      exact ⟨hkeeps, .inr (by rw [hheld]; rfl), fun hc => (by cases hheld.symm.trans hc), .inl rfl⟩
  | reset _ hunchanged | poison _ hunchanged =>
      have hheld := (leaseUnchanged_iff.mp hunchanged).1
      exact ⟨hkeeps, .inr (by rw [hheld]; rfl), fun hc => (by cases hheld.symm.trans hc),
        .inr hnext⟩
  | requeue hrequeue =>
      obtain ⟨hstatus, -, -, rfl⟩ := requeue?_eq_some hrequeue
      exact ⟨hkeeps, .inr (by rw [hstatus]; rfl), fun hc => (by cases hstatus.symm.trans hc),
        .inr hnext⟩

theorem coherent_of_released (hstatus : m.status ≠ .processing) (howner : m.ownerToken = none)
    (hbeat : m.lastHeartbeat = none)
    (hreason : m.status = .error → (m.headers.get? errorHeader).isSome = true)
    (hretries : 0 < m.retryCount →
      m.headers.get? retryHeader = some (Bytes.ofText (Numeral.text m.retryCount))) :
    m.Coherent where
  held := by simp [hstatus, howner]
  released _ := ⟨howner, hbeat⟩
  reason := hreason
  retries := hretries

theorem Change.coherent (h : m.Change cut c r m') (hm : m.Coherent) : m'.Coherent := by
  have hne : retryHeader ≠ errorHeader := by decide
  cases h with
  | claim =>
      exact ⟨⟨fun _ => ⟨rfl, rfl⟩, fun _ => rfl⟩, fun hs => absurd rfl hs, fun hs => (by cases hs),
        hm.retries⟩
  | renew hheld howned =>
      have howner : m.ownerToken.isSome = true := by rw [howned]; rfl
      exact ⟨⟨fun _ => ⟨howner, rfl⟩, fun _ => hheld⟩, fun hs => absurd hheld hs,
        fun hs => (by cases hheld.symm.trans hs), hm.retries⟩
  | complete =>
      exact coherent_of_released (fun hs => by cases hs) rfl rfl (fun hs => by cases hs) hm.retries
  | fail =>
      refine coherent_of_released (fun hs => by cases hs) rfl rfl (fun _ => ?_) fun hr => ?_
      · simp only [failed, Headers.setText, Headers.get?_set_self, Option.isSome_some]
      · simp only [failed, Headers.setText, Headers.get?_set_of_ne _ hne]
        exact hm.retries hr
  | reset =>
      refine coherent_of_released (fun hs => by cases hs) rfl rfl (fun hs => by cases hs)
        fun _ => ?_
      simp only [reclaimed, countRetry, Headers.setText, Headers.get?_set_self]
  | poison =>
      refine coherent_of_released (fun hs => by cases hs) rfl rfl (fun _ => ?_) fun _ => ?_
      · simp only [poisoned, failed, Headers.setText, Headers.get?_set_self, Option.isSome_some]
      · simp only [poisoned, failed, countRetry, Headers.setText, Headers.get?_set_of_ne _ hne,
          Headers.get?_set_self]
  | requeue hrequeue =>
      obtain ⟨hstatus, -, -, rfl⟩ := requeue?_eq_some hrequeue
      obtain ⟨howner, hbeat⟩ := hm.released (by rw [hstatus]; exact fun hs => by cases hs)
      refine coherent_of_released (fun hs => by cases hs) howner hbeat (fun hs => by cases hs)
        fun _ => ?_
      simp only [requeuedOf, countRetry, Headers.setText, Headers.get?_set_self]

end Message

namespace Entry

/-- The call was answered with an error, with none or with false. -/
def isDenied : Entry → Bool
  | ⟨_, .error _⟩ => true
  | ⟨.claim .., .ok found⟩ => found.isNone
  | ⟨.get _, .ok found⟩ => found.isNone
  | ⟨.reset _, .ok changed⟩ => !changed
  | ⟨.poison .., .ok changed⟩ => !changed
  | ⟨.requeue _, .ok changed⟩ => !changed
  | ⟨.removeJob _, .ok changed⟩ => !changed
  | _ => false

/-- The message that the call names or hands out. -/
def target? : Entry → Option MessageId
  | ⟨.insert _ id _, _⟩ => some id
  | ⟨.claim .., .ok found⟩ => found.map (·.id)
  | ⟨.heartbeat id .., _⟩ => some id
  | ⟨.complete id _, _⟩ => some id
  | ⟨.fail id .., _⟩ => some id
  | ⟨.reset scanned, _⟩ => some scanned.id
  | ⟨.poison scanned _, _⟩ => some scanned.id
  | ⟨.requeue id, _⟩ => some id
  | _ => none

end Entry

namespace Memory

/-- The store after calls that were made on the empty one. -/
def after (calls : List Call) : Memory :=
  calls.foldl (fun s c => (s.answer c).2) .empty

theorem after_append (calls : List Call) (c : Call) :
    after (calls ++ [c]) = ((after calls).answer c).2 := by
  simp only [after, List.foldl_append, List.foldl_cons, List.foldl_nil]

/-- Every message is coherent, and no two have the same sequence number. -/
structure Orderly (s : Memory) : Prop where
  coherent : ∀ m ∈ s.messages, m.Coherent
  sequences : (s.messages.map (·.sequence)).Nodup

/-- The second store is what a call with its reply may make of the first. -/
structure Advances (s : Memory) (e : Entry) (s' : Memory) : Prop where
  /-- A message goes on, unless it is purged when its expiry has passed. -/
  kept : ∀ m ∈ s.messages, (∃ m' ∈ s'.messages, m.Advances m') ∨
    ∃ now, e.call = .purge now ∧ m.isPurgeable now = true
  /-- A message comes from one that was there or from the insertion of its identifier. -/
  origin : ∀ m' ∈ s'.messages, (∃ m ∈ s.messages, m.Advances m') ∨
    e.call.insertedId? = some m'.id ∧ s.find? m'.id = none
  /-- A call that is denied changes nothing. -/
  denied : e.isDenied = true → s' = s
  /-- All messages but the one that is named or handed out stay as they are. -/
  others : (∀ now, e.call ≠ .purge now) →
    s'.messages.filter (fun m => some m.id ≠ e.target?) =
      s.messages.filter (fun m => some m.id ≠ e.target?)
  purged : ∀ now, e.call = .purge now → s'.messages = s.messages.filter (!·.isPurgeable now)
  jobs : e.call.isJobCall = false → s'.jobs = s.jobs

theorem recover_denied {s : Memory} {scanned : Message} {f : Message → Message}
    (h : (s.recover scanned f).1 = false) : (s.recover scanned f).2 = s := by
  revert h
  simp only [recover]
  split
  · exact fun _ => rfl
  · split
    · exact fun h => by cases h
    · exact fun _ => rfl

theorem requeue_denied {s : Memory} {id : MessageId} (h : (s.requeue id).1 = false) :
    (s.requeue id).2 = s := by
  revert h
  simp only [requeue]
  split
  · exact fun _ => rfl
  · split
    · exact fun _ => rfl
    · exact fun h => by cases h

theorem removeJob_denied {s : Memory} {name : String} (h : (s.removeJob name).1 = false) :
    (s.removeJob name).2 = s := by
  revert h
  simp only [removeJob]
  split
  · exact fun _ => rfl
  · split
    · exact fun h => by cases h
    · exact fun _ => rfl

theorem answer_denied (s : Memory) (c : Call) :
    Entry.isDenied ⟨c, (s.answer c).1⟩ = true → (s.answer c).2 = s := by
  cases c with
  | insert m id stamp =>
      simp only [answer, insert]
      split
      · split
        · exact fun _ => rfl
        · exact fun h => by cases h
      · exact fun h => by cases h
  | claim =>
      simp only [answer, claim]
      split
      · exact fun _ => rfl
      · exact fun h => by cases h
  | heartbeat =>
      simp only [answer, heartbeat]
      split
      · exact fun _ => rfl
      · split
        · exact fun _ => rfl
        · split
          · exact fun _ => rfl
          · exact fun h => by cases h
  | complete =>
      simp only [answer, complete]
      split
      · exact fun _ => rfl
      · split
        · exact fun _ => rfl
        · split
          · exact fun h => by cases h
          · exact fun _ => rfl
  | fail =>
      simp only [answer, fail]
      split
      · exact fun _ => rfl
      · split
        · exact fun h => by cases h
        · exact fun _ => rfl
  | reset | poison => exact fun h => recover_denied (by simpa [Entry.isDenied, answer] using h)
  | requeue => exact fun h => requeue_denied (by simpa [Entry.isDenied, answer] using h)
  | removeJob => exact fun h => removeJob_denied (by simpa [Entry.isDenied, answer] using h)
  | purge | saveJob | recordFired => exact fun h => by cases h
  | scan | get | countForJob | loadJobs => exact fun _ => rfl

/-- Calls on messages are answered and carried out alike, whatever jobs are stored beside them. -/
theorem answer_beside (s : Memory) (jobs : List JobRecord) {c : Call} (h : c.isJobCall = false) :
    ({ s with jobs } : Memory).answer c = ((s.answer c).1, { (s.answer c).2 with jobs }) := by
  cases c with
  | insert m =>
      simp only [answer, insert]
      cases m.job with
      | none => rfl
      | some key =>
          dsimp only
          split <;> rfl
  | claim routes owner now =>
      simp only [answer, claim]
      cases best? (s.messages.filter (·.isClaimable now routes)) <;> rfl
  | heartbeat id =>
      simp only [answer, heartbeat, find?]
      cases s.messages.find? (·.id = id) with
      | none => rfl
      | some m =>
          dsimp only
          split
          · rfl
          · split <;> rfl
  | complete id =>
      simp only [answer, complete, find?]
      cases s.messages.find? (·.id = id) with
      | none => rfl
      | some m =>
          dsimp only
          split
          · rfl
          · split <;> rfl
  | fail id =>
      simp only [answer, fail, find?]
      cases s.messages.find? (·.id = id) with
      | none => rfl
      | some m =>
          dsimp only
          split <;> rfl
  | reset scanned | poison scanned =>
      simp only [answer, recover, find?]
      cases s.messages.find? (·.id = scanned.id) with
      | none => rfl
      | some m =>
          dsimp only
          split <;> rfl
  | requeue id =>
      simp only [answer, requeue, find?]
      cases (s.messages.find? (·.id = id)).bind Message.requeue? with
      | none => rfl
      | some m =>
          dsimp only
          split <;> rfl
  | purge | scan | get | countForJob => rfl
  | saveJob | loadJobs | removeJob | recordFired => cases h

theorem answer_jobs (s : Memory) {c : Call} (h : c.isJobCall = false) :
    (s.answer c).2.jobs = s.jobs :=
  congrArg (·.2.jobs) (s.answer_beside s.jobs h)

/-- What the calls made so far tell about the messages that are stored. -/
structure Tracked (calls : List Call) (s : Memory) : Prop where
  coherent : ∀ m ∈ s.messages, m.Coherent
  sequences : (s.messages.map (·.sequence)).Pairwise (· < ·)
  last : ∀ m ∈ s.messages, m.sequence ≤ s.lastSequence
  retries : ∀ m ∈ s.messages, m.retryCount < calls.length
  distinct : s.Distinct
  known : ∀ m ∈ s.messages, m.id ∈ calls.filterMap Call.insertedId?

theorem Tracked.empty : Tracked [] .empty where
  coherent := by simp [Memory.empty]
  sequences := List.Pairwise.nil
  last := by simp [Memory.empty]
  retries := by simp [Memory.empty]
  distinct := List.nodup_nil
  known := by simp [Memory.empty]

section Step

variable {calls : List Call} {s s' : Memory} {c : Call} {r : c.Reply}

theorem mem_insertedIds {id : MessageId} (h : id ∈ calls.filterMap Call.insertedId?) (c : Call) :
    id ∈ (calls ++ [c]).filterMap Call.insertedId? := by
  rw [List.filterMap_append]
  exact List.mem_append_left _ h

theorem toMessage_coherent (m : NewMessage) (id : MessageId) (n : Nat) (t : Instant) :
    (m.toMessage id n t).Coherent :=
  Message.coherent_of_released (fun hs => by cases hs) rfl rfl (fun hs => by cases hs)
    fun hr => absurd hr (Nat.lt_irrefl 0)

theorem Tracked.fresh (hs : s.Tracked calls)
    (hfresh : ((calls ++ [c]).filterMap Call.insertedId?).Nodup) :
    ∀ id ∈ c.insertedId?, ∀ m ∈ s.messages, m.id ≠ id := by
  intro id hid m hm hsame
  rw [List.filterMap_append, List.nodup_append] at hfresh
  refine hfresh.2.2 m.id (hs.known m hm) id ?_ hsame
  rw [List.filterMap_cons, Option.mem_def.mp hid]
  exact List.mem_cons_self

theorem sequences_of_effect {cut : Instant → Instant} (h : Effect cut s c r s') (hd : s.Distinct)
    (hs : (s.messages.map (·.sequence)).Pairwise (· < ·))
    (hlast : ∀ m ∈ s.messages, m.sequence ≤ s.lastSequence) :
    (s'.messages.map (·.sequence)).Pairwise (· < ·) ∧
      ∀ m ∈ s'.messages, m.sequence ≤ s'.lastSequence := by
  cases h with
  | kept hmessages hsame =>
      rw [hmessages, hsame]
      exact ⟨hs, hlast⟩
  | scanned => exact ⟨hs, hlast⟩
  | added =>
      constructor
      · rw [add, List.map_append, List.pairwise_append]
        refine ⟨hs, List.pairwise_singleton _ _, ?_⟩
        simp only [List.mem_map, List.map_singleton, List.mem_singleton]
        rintro _ ⟨a, ha, rfl⟩ _ rfl
        exact Nat.lt_succ_of_le (hlast a ha)
      · exact List.forall_mem_append.mpr
          ⟨fun a ha => Nat.le_succ_of_le (hlast a ha), by simp [add, NewMessage.toMessage]⟩
  | @changed c r m m' hfind hchange =>
      have hm := (find?_some hfind).1
      have hkeeps := hchange.keeps
      constructor
      · rw [hd.map_put hm hkeeps.id hkeeps.sequence]
        exact hs
      · intro a ha
        rcases (mem_put hm hkeeps.id).mp ha with rfl | ⟨ha, -⟩
        · rw [hkeeps.sequence]
          exact hlast m hm
        · exact hlast a ha
  | purged =>
      exact ⟨hs.sublist (List.filter_sublist.map _),
        fun a ha => hlast a (List.mem_of_mem_filter ha)⟩

theorem Tracked.step (hs : s.Tracked calls) (h : Effect id s c r s')
    (hlen : calls.length < UInt32.size)
    (hfresh : ((calls ++ [c]).filterMap Call.insertedId?).Nodup) : s'.Tracked (calls ++ [c]) := by
  obtain ⟨hsequences, hlast⟩ := sequences_of_effect h hs.distinct hs.sequences hs.last
  refine ⟨fun m' hm' => ?_, hsequences, hlast, fun m' hm' => ?_,
    h.distinct hs.distinct (hs.fresh hfresh), fun m' hm' => ?_⟩
  · rcases h.origin hm' with hm | ⟨m, hm, hchange⟩ | ⟨new, id, stamp, -, rfl⟩
    · exact hs.coherent m' hm
    · exact hchange.coherent (hs.coherent m hm)
    · exact toMessage_coherent _ _ _ _
  · rw [List.length_append, List.length_singleton]
    rcases h.origin hm' with hm | ⟨m, hm, hchange⟩ | ⟨new, id, stamp, -, rfl⟩
    · exact Nat.lt_succ_of_lt (hs.retries m' hm)
    · have hretries := hs.retries m hm
      have := (hchange.advances (by omega)).retryCount
      omega
    · exact Nat.succ_pos _
  · rcases h.origin hm' with hm | ⟨m, hm, hchange⟩ | ⟨new, id, stamp, rfl, rfl⟩
    · exact mem_insertedIds (hs.known m' hm) c
    · rw [hchange.keeps.id]
      exact mem_insertedIds (hs.known m hm) c
    · simp [NewMessage.toMessage, List.filterMap_append, Call.insertedId?]

theorem Tracked.after {calls : List Call} (hlen : calls.length ≤ UInt32.size)
    (hfresh : (calls.filterMap Call.insertedId?).Nodup) : (Memory.after calls).Tracked calls := by
  induction calls using List.reverseRecOn with
  | nil => exact .empty
  | append_singleton calls c ih =>
      rw [List.length_append, List.length_singleton] at hlen
      have hprefix : (calls.filterMap Call.insertedId?).Nodup := by
        rw [List.filterMap_append, List.nodup_append] at hfresh
        exact hfresh.1
      have hs := ih (by omega) hprefix
      rw [after_append]
      exact hs.step (answer_effect hs.distinct c) (by omega) hfresh

/-! ## One more call -/

theorem filter_put {m m' : Message} (hid : m'.id = m.id) :
    (s.put m').messages.filter (fun a => some a.id ≠ some m.id) =
      s.messages.filter fun a => some a.id ≠ some m.id := by
  rw [put_messages, hid]
  induction s.messages with
  | nil => rfl
  | cons a rest ih =>
      by_cases h : a.id = m.id
      · rw [List.map_cons, if_pos h, List.filter_cons_of_neg (by simp [hid]),
          List.filter_cons_of_neg (by simp [h]), ih]
      · simp only [List.map_cons, if_neg h, List.filter_cons]
        rw [ih]

theorem Tracked.kept (hs : s.Tracked calls) (hlen : calls.length < UInt32.size)
    (h : Effect id s c r s') {m : Message} (hm : m ∈ s.messages) :
    (∃ m' ∈ s'.messages, m.Advances m') ∨ ∃ now, c = .purge now ∧ m.isPurgeable now = true := by
  cases h with
  | kept hmessages => exact .inl ⟨m, hmessages ▸ hm, .refl m⟩
  | scanned => exact .inl ⟨m, hm, .refl m⟩
  | added => exact .inl ⟨m, List.mem_append_left _ hm, .refl m⟩
  | @changed c r a a' hfind hchange =>
      have ha := (find?_some hfind).1
      have hretries := hs.retries a ha
      have hadvances := hchange.advances (by omega)
      by_cases hid : m.id = a.id
      · obtain rfl := hs.distinct.eq_of_id hm ha hid
        exact .inl ⟨a', (mem_put hm hadvances.id).mpr (.inl rfl), hadvances⟩
      · exact .inl ⟨m, (mem_put ha hadvances.id).mpr (.inr ⟨hm, hid⟩), .refl m⟩
  | @purged now =>
      by_cases hpurge : m.isPurgeable now = true
      · exact .inr ⟨now, rfl, hpurge⟩
      · exact .inl ⟨m, List.mem_filter.mpr ⟨hm, by simpa using hpurge⟩, .refl m⟩

theorem Tracked.origin (hs : s.Tracked calls) (hlen : calls.length < UInt32.size)
    (hfresh : ((calls ++ [c]).filterMap Call.insertedId?).Nodup) (h : Effect id s c r s')
    {m' : Message} (hm' : m' ∈ s'.messages) :
    (∃ m ∈ s.messages, m.Advances m') ∨
      c.insertedId? = some m'.id ∧ s.find? m'.id = none := by
  rcases h.origin hm' with hm | ⟨m, hm, hchange⟩ | ⟨new, id, stamp, rfl, rfl⟩
  · exact .inl ⟨m', hm, .refl m'⟩
  · have hretries := hs.retries m hm
    exact .inl ⟨m, hm, hchange.advances (by omega)⟩
  · exact .inr ⟨rfl, List.find?_eq_none.mpr fun a ha hid =>
      hs.fresh hfresh id rfl a ha (of_decide_eq_true hid)⟩

theorem target?_of_change {m m' : Message} (h : m.Change id c r m') :
    Entry.target? ⟨c, r⟩ = some m.id := by
  cases h with
  | reset hid | poison hid => exact congrArg some hid.symm
  | _ => rfl

theorem others_of_effect (h : Effect id s c r s') (hpurge : ∀ now, c ≠ .purge now) :
    s'.messages.filter (fun m => some m.id ≠ Entry.target? ⟨c, r⟩) =
      s.messages.filter fun m => some m.id ≠ Entry.target? ⟨c, r⟩ := by
  cases h with
  | kept hmessages => rw [hmessages]
  | scanned => rfl
  | added =>
      rw [add, List.filter_append,
        List.filter_cons_of_neg (by simp [Entry.target?, NewMessage.toMessage]), List.filter_nil,
        List.append_nil]
  | changed _ hchange =>
      rw [target?_of_change hchange]
      exact filter_put hchange.keeps.id
  | @purged now => exact absurd rfl (hpurge now)

end Step

/-- In every state that calls lead to, the messages are coherent and have sequence numbers of their
own, and one more call makes of them only what the lifecycle allows. Identifiers are drawn fresh. -/
theorem lifecycle (calls : List Call) (c : Call) (hlen : calls.length < 2 ^ 32)
    (hfresh : ((calls ++ [c]).filterMap Call.insertedId?).Nodup) :
    (after calls).Orderly ∧
      (after calls).Advances ⟨c, ((after calls).answer c).1⟩ ((after calls).answer c).2 := by
  have hprefix : (calls.filterMap Call.insertedId?).Nodup := by
    rw [List.filterMap_append, List.nodup_append] at hfresh
    exact hfresh.1
  have hs := Tracked.after (Nat.le_of_lt hlen) hprefix
  have heffect := answer_effect hs.distinct c
  refine ⟨⟨hs.coherent, hs.sequences.imp Nat.ne_of_lt⟩, ?_⟩
  exact {
    kept := fun m hm => hs.kept hlen heffect hm
    origin := fun m' hm' => hs.origin hlen hfresh heffect hm'
    denied := answer_denied _ c
    others := others_of_effect heffect
    purged := by
      rintro now rfl
      rfl
    jobs := answer_jobs _ }

/-- The lifecycle at the first claim of a message. -/
theorem lifecycle_first_claim :
    (after [.insert { payload := [1] } ⟨.ofNat 1⟩ .epoch]).Orderly ∧
      (after [.insert { payload := [1] } ⟨.ofNat 1⟩ .epoch]).Advances
        ⟨.claim [] ⟨"worker"⟩ .epoch, ((after [.insert { payload := [1] } ⟨.ofNat 1⟩ .epoch]).answer
          (.claim [] ⟨"worker"⟩ .epoch)).1⟩
        ((after [.insert { payload := [1] } ⟨.ofNat 1⟩ .epoch]).answer
          (.claim [] ⟨"worker"⟩ .epoch)).2 :=
  lifecycle [.insert { payload := [1] } ⟨.ofNat 1⟩ .epoch] (.claim [] ⟨"worker"⟩ .epoch)
    (by decide) (by decide)

end Memory

end WorkQueue
