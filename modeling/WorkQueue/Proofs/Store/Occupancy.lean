import Mathlib
import WorkQueue.Proofs.Store.Backend
import WorkQueue.Proofs.Store.Moves

/-! # Jobs and their slots

Whatever calls are made on a store in whatever order, a job has at most one unconsumed message and a
slot of a job at most one message that is not in error. An insertion and a requeue are refused
exactly when the messages that are stored leave no other way to keep this.
-/

namespace WorkQueue

namespace Message

/-- The message keeps `key` from being enqueued. -/
def Occupies (m : Message) (key : JobSlotKey) : Prop :=
  ∃ own ∈ m.job, own.name = key.name ∧
    (m.IsUnconsumed ∨ m.status = .complete ∧ own.slot = key.slot)

/-- The two messages are of one job, and both unconsumed or both of one slot and not in error. -/
def Clashes (a b : Message) : Prop :=
  ∃ k ∈ a.job, ∃ k' ∈ b.job, k.name = k'.name ∧
    (a.IsUnconsumed ∧ b.IsUnconsumed ∨ k.slot = k'.slot ∧ a.status ≠ .error ∧ b.status ≠ .error)

variable {a b m m' : Message} {key : JobSlotKey}

instance (m : Message) : Decidable m.IsUnconsumed := inferInstanceAs (Decidable (_ ∨ _))

theorem blocks_iff : m.blocks key = true ↔ m.Occupies key := by
  unfold blocks Occupies IsUnconsumed
  cases m.job with
  | none => simp
  | some own => cases m.status <;> simp

theorem Clashes.symm (h : a.Clashes b) : b.Clashes a := by
  obtain ⟨k, hk, k', hk', hname, hboth⟩ := h
  exact ⟨k', hk', k, hk, hname.symm, hboth.imp And.symm fun h => ⟨h.1.symm, h.2.symm⟩⟩

theorem Clashes.blocks (h : a.Clashes b) : b.job.any a.blocks = true := by
  obtain ⟨k, hk, k', hk', hname, hboth⟩ := h
  refine Option.any_eq_true _ _ |>.mpr ⟨k', hk', blocks_iff.mpr ⟨k, hk, hname, ?_⟩⟩
  rcases hboth with ⟨ha, -⟩ | ⟨hslot, ha, -⟩
  · exact .inl ha
  · cases hs : a.status with
    | waiting => exact .inl (.inl hs)
    | processing => exact .inl (.inr hs)
    | complete => exact .inr ⟨rfl, hslot⟩
    | error => exact absurd hs ha

theorem Clashes.of_changed (h : a.Clashes m') (hjob : m'.job = m.job) (hm : m.IsUnconsumed) :
    a.Clashes m := by
  obtain ⟨k, hk, k', hk', hname, hboth⟩ := h
  have hfine : m.status ≠ .error := by
    rcases hm with hm | hm <;> rw [hm] <;> exact Status.noConfusion
  exact ⟨k, hk, k', hjob ▸ hk', hname,
    hboth.imp (fun h => ⟨h.1, hm⟩) fun h => ⟨h.1, h.2.1, hfine⟩⟩

end Message

namespace Memory

/-- No two messages clash. -/
def Unclashed (s : Memory) : Prop :=
  ∀ a ∈ s.messages, ∀ b ∈ s.messages, a.id ≠ b.id → ¬ a.Clashes b

variable {s s' : Memory} {c : Call}

theorem not_clashes_of_free {messages : List Message} {a m : Message} (ha : a ∈ messages)
    (hfree : isBlocked messages m.job = false) : ¬ a.Clashes m := by
  intro hclash
  have := isBlocked_iff.mpr ⟨a, ha, hclash.blocks⟩
  rw [hfree] at this
  cases this

/-- A move leaves no two messages that clash. -/
theorem Moves.unclashed (h : s.Moves c s') (hs : s.Unclashed) : s'.Unclashed := by
  cases h with
  | kept hmessages =>
      rw [Unclashed, hmessages]
      exact hs
  | @added _ m hmessages _ hfree =>
      rw [Unclashed, hmessages]
      intro a ha b hb hne
      rcases List.mem_append.mp ha with holda | hnewa <;>
        rcases List.mem_append.mp hb with holdb | hnewb
      · exact hs a holda b holdb hne
      · obtain rfl := List.mem_singleton.mp hnewb
        exact not_clashes_of_free holda hfree
      · obtain rfl := List.mem_singleton.mp hnewa
        exact fun hclash => not_clashes_of_free holdb hfree hclash.symm
      · obtain rfl := List.mem_singleton.mp hnewa
        obtain rfl := List.mem_singleton.mp hnewb
        exact absurd rfl hne
  | @changed m m' hm hid hjob hfree =>
      have hnone : ∀ a ∈ s.messages, a.id ≠ m.id → ¬ a.Clashes m' := by
        intro a ha hne
        rcases hfree with hm' | hfree
        · exact fun hclash => hs a ha m hm hne (hclash.of_changed hjob hm')
        · exact not_clashes_of_free (List.mem_filter.mpr ⟨ha, decide_eq_true hne⟩) hfree
      intro a ha b hb hne
      rcases (mem_put hm hid).mp ha with rfl | ⟨holda, hane⟩ <;>
        rcases (mem_put hm hid).mp hb with rfl | ⟨holdb, hbne⟩
      · exact absurd rfl hne
      · exact fun hclash => hnone b holdb hbne hclash.symm
      · exact hnone a holda hane
      · exact hs a holda b holdb hne
  | deleted =>
      exact fun a ha b hb => hs a (List.mem_of_mem_filter ha) b (List.mem_of_mem_filter hb)

theorem Unclashed.countP_le (hs : s.Unclashed) (hd : s.Distinct) {p : Message → Bool}
    (hp : ∀ a b, p a = true → p b = true → a.Clashes b) : s.messages.countP p ≤ 1 := by
  rw [List.countP_eq_length_filter]
  have hids : ((s.messages.filter p).map (·.id)).Nodup := hd.sublist (List.filter_sublist.map _)
  match hfound : s.messages.filter p with
  | [] | [_] => simp
  | a :: b :: rest =>
      rw [hfound] at hids
      have ha : a ∈ s.messages.filter p := hfound ▸ List.mem_cons_self
      have hb : b ∈ s.messages.filter p := hfound ▸ List.mem_cons_of_mem a List.mem_cons_self
      obtain ⟨ha, hpa⟩ := List.mem_filter.mp ha
      obtain ⟨hb, hpb⟩ := List.mem_filter.mp hb
      have hne : a.id ≠ b.id := fun hid =>
        (List.nodup_cons.mp hids).1 (List.mem_map.mpr ⟨b, List.mem_cons_self, hid.symm⟩)
      exact absurd (hp a b hpa hpb) (hs a ha b hb hne)

theorem Unclashed.unconsumed_le (hs : s.Unclashed) (hd : s.Distinct) (name : String) :
    s.messages.countP (fun m => decide m.IsUnconsumed && m.job.any (·.name == name)) ≤ 1 := by
  refine hs.countP_le hd fun a b ha hb => ?_
  simp only [Bool.and_eq_true, decide_eq_true_eq] at ha hb
  obtain ⟨k, hk, hname⟩ := Option.any_eq_true _ _ |>.mp ha.2
  obtain ⟨k', hk', hname'⟩ := Option.any_eq_true _ _ |>.mp hb.2
  exact ⟨k, hk, k', hk', (beq_iff_eq.mp hname).trans (beq_iff_eq.mp hname').symm,
    .inl ⟨ha.1, hb.1⟩⟩

theorem Unclashed.slot_le (hs : s.Unclashed) (hd : s.Distinct) (key : JobSlotKey) :
    s.messages.countP (fun m => m.job == some key && m.status != .error) ≤ 1 := by
  refine hs.countP_le hd fun a b ha hb => ?_
  simp only [Bool.and_eq_true, beq_iff_eq, bne_iff_ne] at ha hb
  exact ⟨key, ha.1, key, hb.1, rfl, .inr ⟨rfl, ha.2, hb.2⟩⟩

/-! ## Refusals -/

variable {key : JobSlotKey}

theorem isBlocked_iff_occupied {messages : List Message} :
    isBlocked messages (some key) = true ↔ ∃ a ∈ messages, a.Occupies key := by
  rw [isBlocked_iff]
  exact exists_congr fun a => and_congr_right fun _ => Message.blocks_iff

theorem insert_refused_iff (s : Memory) {new : NewMessage} (hkey : new.job = some key)
    (id : MessageId) (stamp : Instant) :
    ((∃ a ∈ s.messages, a.Occupies key) →
      s.insert new id stamp = (.error (.duplicateKey key.text), s)) ∧
    ((¬ ∃ a ∈ s.messages, a.Occupies key) → (s.insert new id stamp).1 = .ok id) := by
  rw [Table.memory_insert, hkey]
  constructor
  · intro hoccupied
    rw [if_pos (isBlocked_iff_occupied.mpr hoccupied)]
    rfl
  · intro hfree
    rw [if_neg fun hblocked => hfree (isBlocked_iff_occupied.mp hblocked)]

theorem requeue_refused_iff (hd : s.Distinct) {m m' : Message} (hm : m ∈ s.messages)
    (hkey : m.job = some key) (hrequeue : m.requeue? = some m') :
    ((∃ a ∈ s.messages, a.id ≠ m.id ∧ a.Occupies key) → s.requeue m.id = (false, s)) ∧
    ((¬ ∃ a ∈ s.messages, a.id ≠ m.id ∧ a.Occupies key) → (s.requeue m.id).1 = true) := by
  have hjob : m'.job = some key := by
    rw [(Message.requeue?_eq_some hrequeue).2.2.2]
    exact hkey
  have hblocked : isBlocked (s.messages.filter (·.id ≠ m.id)) (some key) = true ↔
      ∃ a ∈ s.messages, a.id ≠ m.id ∧ a.Occupies key := by
    rw [isBlocked_iff_occupied]
    refine exists_congr fun a => ?_
    rw [List.mem_filter, decide_eq_true_iff, and_assoc]
  simp only [requeue, hd.find?_of_mem hm, Option.bind_some, hrequeue, hjob]
  constructor
  · intro hoccupied
    rw [if_pos (hblocked.mpr hoccupied)]
  · intro hfree
    rw [if_neg fun h => hfree (hblocked.mp h)]

end Memory

namespace Backend

open Instant (micros)

/-- The stored messages, as they read. -/
def messages : Backend → List Message
  | memory s => s.messages
  | table t => (t.messages.getD []).filterMap fun r => r.toMessage.toOption

/-- The store holds the messages of a store in memory under distinct identifiers. -/
inductive Stores : Backend → Memory → Prop
  | memory {s : Memory} (distinct : s.Distinct) : Stores (.memory s) s
  | table {t : Table} {s : Memory} (reads : t.Reads s) : Stores (.table t) s

variable {b : Backend} {s : Memory} {c : Call} {ids : List MessageId}

theorem Stores.distinct (h : b.Stores s) : s.Distinct := by
  cases h with
  | memory hd => exact hd
  | table hreads => exact hreads.distinct

theorem Stores.messages (h : b.Stores s) : b.messages = s.messages := by
  cases h with
  | memory => rfl
  | @table t _ hreads =>
      have hrows : t.messages = some (s.messages.map MessageRow.ofMessage) := by
        rw [← hreads.shown]
        rfl
      rw [Backend.messages, hrows, Option.getD_some, List.filterMap_map]
      refine (List.filterMap_congr fun m hm => ?_).trans List.filterMap_some
      rw [Function.comp_apply, MessageRow.toMessage_ofMessage (hreads.legible m hm)]
      rfl

theorem table_of_answer {t : Table} (h : (b.answer c).2 = .table t) : ∃ t', b = .table t' := by
  cases b with
  | memory s => cases h
  | table t' => exact ⟨t', rfl⟩

theorem table_of_afterAll {calls : List Call} {t : Table} (h : afterAll answer b calls = .table t) :
    ∃ t', b = .table t' := by
  induction calls generalizing b with
  | nil => exact ⟨t, h⟩
  | cons c calls ih =>
      obtain ⟨t', ht'⟩ := ih h
      exact table_of_answer ht'

theorem Stores.step (h : b.Stores s) (htakes : b.Takes c)
    (hfresh : ∀ id ∈ c.insertedId?, ∀ m ∈ s.messages, m.id ≠ id) :
    ∃ s', s.Moves c s' ∧ (b.answer c).2.Stores s' := by
  cases h with
  | memory hd =>
      have heffect := Memory.answer_effect hd c
      exact ⟨_, Memory.moves_of_effect heffect, .memory (heffect.distinct hd hfresh)⟩
  | @table t _ hreads =>
      cases hjob : c.isJobCall with
      | false =>
          obtain ⟨-, s', hmoves, hreads', -⟩ := hreads.step (htakes t rfl) hjob
          exact ⟨s', hmoves, .table hreads'⟩
      | true => exact ⟨s, .kept rfl, .table (hreads.jobCall hjob)⟩

/-- The store holds messages that do not clash, under identifiers of a list. -/
structure Orderly (b : Backend) (ids : List MessageId) (s : Memory) : Prop where
  stores : b.Stores s
  unclashed : s.Unclashed
  known : ∀ m ∈ s.messages, m.id ∈ ids

theorem Orderly.start (hstart : b = .memory .empty ∨ b = .table .empty) :
    b.Orderly [] .empty := by
  have hunclashed : Memory.empty.Unclashed := fun a ha => by cases ha
  rcases hstart with rfl | rfl
  · exact ⟨.memory List.nodup_nil, hunclashed, fun m hm => by cases hm⟩
  · exact ⟨.table .empty, hunclashed, fun m hm => by cases hm⟩

theorem Orderly.step (h : b.Orderly ids s) (htakes : b.Takes c)
    (hfresh : ∀ id ∈ c.insertedId?, id ∉ ids) :
    ∃ s', (b.answer c).2.Orderly (ids ++ c.insertedId?.toList) s' := by
  have hunused : ∀ id ∈ c.insertedId?, ∀ m ∈ s.messages, m.id ≠ id := by
    rintro id hid m hm rfl
    exact hfresh m.id hid (h.known m hm)
  obtain ⟨s', hmoves, hstores⟩ := h.stores.step htakes hunused
  refine ⟨s', hstores, hmoves.unclashed h.unclashed, fun m hm => List.mem_append.mpr ?_⟩
  rcases hmoves.origin hm with ⟨a, ha, hid⟩ | hinserted
  · exact .inl (hid ▸ h.known a ha)
  · exact .inr (by rw [hinserted]; exact List.mem_singleton_self _)

theorem Orderly.run {calls : List Call} (h : b.Orderly ids s) (htakes : ∀ c ∈ calls, b.Takes c)
    (hids : (ids ++ calls.filterMap Call.insertedId?).Nodup) :
    ∃ s', (afterAll answer b calls).Orderly (ids ++ calls.filterMap Call.insertedId?) s' := by
  induction calls generalizing b ids s with
  | nil => exact ⟨s, by simpa [afterAll] using h⟩
  | cons c calls ih =>
      obtain ⟨hc, hrest⟩ := List.forall_mem_cons.mp htakes
      have hsplit : ids ++ (c :: calls).filterMap Call.insertedId? =
          ids ++ c.insertedId?.toList ++ calls.filterMap Call.insertedId? := by
        cases hid : c.insertedId? <;> simp [hid]
      rw [hsplit] at hids ⊢
      have hfresh : ∀ id ∈ c.insertedId?, id ∉ ids := by
        intro id hid hused
        have hnodup := (List.nodup_append.mp hids).1
        exact (List.nodup_append.mp hnodup).2.2 id hused id (Option.mem_toList.mpr hid) rfl
      obtain ⟨s', hs'⟩ := h.step hc hfresh
      refine ih hs' (fun c' hc' t ht => ?_) hids
      obtain ⟨t', ht'⟩ := table_of_answer ht
      exact hrest c' hc' t' ht'

theorem answer_table (t : Table) (c : Call) :
    (table t).answer c = ((t.answer c).1, table (t.answer c).2) := rfl

/-- The store tells the slot of the key from all others: a table keeps whole microseconds. -/
def Tells (b : Backend) (key : JobSlotKey) : Prop := ∀ t, b = .table t → key.slot.micros = key.slot

theorem Stores.insert_refused_iff (h : b.Stores s) {new : NewMessage} {key : JobSlotKey}
    (hkey : new.job = some key) {id : MessageId} {stamp : Instant}
    (htakes : b.Takes (.insert new id stamp)) (htells : b.Tells key)
    (hfresh : ∀ m ∈ s.messages, m.id ≠ id) :
    ((∃ m ∈ s.messages, m.Occupies key) →
      b.answer (.insert new id stamp) = (.error (.duplicateKey key.text), b)) ∧
    ((¬ ∃ m ∈ s.messages, m.Occupies key) → (b.answer (.insert new id stamp)).1 = .ok id) := by
  cases h with
  | memory =>
      obtain ⟨hrefused, haccepted⟩ := s.insert_refused_iff hkey id stamp
      refine ⟨fun hoccupied => ?_, haccepted⟩
      change ((s.insert new id stamp).1, Backend.memory (s.insert new id stamp).2) = _
      rw [hrefused hoccupied]
  | @table t _ hreads =>
      have hcut : (new.cut micros).job = some key := by
        have hslot : key.cut micros = key := congrArg (JobSlotKey.mk key.name) (htells t rfl)
        rw [NewMessage.cut, hkey, Option.map_some, hslot]
      obtain ⟨hrefused, haccepted⟩ := s.insert_refused_iff hcut id stamp.micros
      have hagrees := Table.insert_agrees t hreads.legible hfresh (htakes t rfl)
      rw [Table.Agrees, hreads.shown] at hagrees
      rw [answer_table, hagrees]
      refine ⟨fun hoccupied => ?_, haccepted⟩
      change ((s.insert (new.cut micros) id stamp.micros).1,
        Backend.table (t.showing (s.insert (new.cut micros) id stamp.micros).2)) = _
      rw [hrefused hoccupied, hreads.shown]

theorem Stores.requeue_refused_iff (h : b.Stores s) {m m' : Message} {key : JobSlotKey}
    (hm : m ∈ s.messages) (hkey : m.job = some key) (hrequeue : m.requeue? = some m') :
    ((∃ a ∈ s.messages, a.id ≠ m.id ∧ a.Occupies key) →
      b.answer (.requeue m.id) = (.ok false, b)) ∧
    ((¬ ∃ a ∈ s.messages, a.id ≠ m.id ∧ a.Occupies key) →
      (b.answer (.requeue m.id)).1 = .ok true) := by
  obtain ⟨hrefused, haccepted⟩ := Memory.requeue_refused_iff h.distinct hm hkey hrequeue
  cases h with
  | memory =>
      refine ⟨fun hoccupied => ?_, fun hfree => congrArg Except.ok (haccepted hfree)⟩
      change (Except.ok (s.requeue m.id).1, Backend.memory (s.requeue m.id).2) = _
      rw [hrefused hoccupied]
  | @table t _ hreads =>
      have hagrees := Table.requeue_agrees t hreads.distinct hreads.legible m.id
      rw [Table.Agrees, hreads.shown] at hagrees
      rw [answer_table, hagrees]
      refine ⟨fun hoccupied => ?_, fun hfree => congrArg Except.ok (haccepted hfree)⟩
      change (Except.ok (s.requeue m.id).1, Backend.table (t.showing (s.requeue m.id).2)) = _
      rw [hrefused hoccupied, hreads.shown]

/-- After any calls a job has at most one unconsumed message and a slot at most one message that is
not in error, and an insertion or a requeue is refused exactly when another message occupies its
slot; a refusal changes nothing. -/
theorem job_slots_unique (b : Backend) (hstart : b = .memory .empty ∨ b = .table .empty)
    (calls : List Call) (htakes : ∀ c ∈ calls, b.Takes c)
    (hids : (calls.filterMap Call.insertedId?).Nodup) :
    let now := afterAll answer b calls
    (∀ name, now.messages.countP
      (fun m => decide m.IsUnconsumed && m.job.any (·.name == name)) ≤ 1) ∧
    (∀ key, now.messages.countP (fun m => m.job == some key && m.status != .error) ≤ 1) ∧
    (∀ new key id stamp, new.job = some key → b.Takes (.insert new id stamp) → b.Tells key →
      id ∉ calls.filterMap Call.insertedId? →
      ((∃ m ∈ now.messages, m.Occupies key) →
        now.answer (.insert new id stamp) = (.error (.duplicateKey key.text), now)) ∧
      ((¬ ∃ m ∈ now.messages, m.Occupies key) →
        (now.answer (.insert new id stamp)).1 = .ok id)) ∧
    ∀ m ∈ now.messages, ∀ key m', m.job = some key → m.requeue? = some m' →
      ((∃ a ∈ now.messages, a.id ≠ m.id ∧ a.Occupies key) →
        now.answer (.requeue m.id) = (.ok false, now)) ∧
      ((¬ ∃ a ∈ now.messages, a.id ≠ m.id ∧ a.Occupies key) →
        (now.answer (.requeue m.id)).1 = .ok true) := by
  intro now
  obtain ⟨s, hs⟩ := (Orderly.start hstart).run htakes (by simpa using hids)
  have hd := hs.stores.distinct
  have hmessages : now.messages = s.messages := hs.stores.messages
  rw [hmessages]
  refine ⟨hs.unclashed.unconsumed_le hd, hs.unclashed.slot_le hd,
    fun new key id stamp hkey hc htells hfresh => ?_,
    fun m hm key m' hkey hrequeue => hs.stores.requeue_refused_iff hm hkey hrequeue⟩
  have hunused : ∀ m ∈ s.messages, m.id ≠ id := by
    rintro m hm rfl
    exact hfresh (hs.known m hm)
  refine hs.stores.insert_refused_iff hkey (fun t ht => ?_) (fun t ht => ?_) hunused
  · obtain ⟨t', ht'⟩ := table_of_afterAll ht
    exact hc t' ht'
  · obtain ⟨t', ht'⟩ := table_of_afterAll ht
    exact htells t' ht'

/-- A slot whose message was completed is not enqueued again. -/
theorem job_slots_unique_completed :
    let key : JobSlotKey := ⟨"report", .epoch⟩
    let new : NewMessage := { payload := [1], job := some key }
    let done := afterAll answer (.table .empty) [.insert new ⟨.ofNat 1⟩ .epoch,
      .claim [] ⟨"a"⟩ .epoch, .complete ⟨.ofNat 1⟩ ⟨"a"⟩]
    done.answer (.insert new ⟨.ofNat 2⟩ .epoch) = (.error (.duplicateKey key.text), done) := by
  intro key new done
  let calls : List Call := [.insert new ⟨.ofNat 1⟩ .epoch, .claim [] ⟨"a"⟩ .epoch,
    .complete ⟨.ofNat 1⟩ ⟨"a"⟩]
  have hdated : ∀ c ∈ calls, c.Dated := by decide
  have hblocked : done.messages.any (·.blocks key) = true := by decide +kernel
  obtain ⟨m, hm, hblocks⟩ := List.any_eq_true.mp hblocked
  have hunique := job_slots_unique (.table .empty) (.inr rfl) calls
    (fun c hc _ _ => hdated c hc) (by decide)
  exact (hunique.2.2.1 new key ⟨.ofNat 2⟩ .epoch rfl (fun _ _ => by decide) (fun _ _ => by decide)
    (by decide)).1 ⟨m, hm, Message.blocks_iff.mp hblocks⟩

end Backend

end WorkQueue
