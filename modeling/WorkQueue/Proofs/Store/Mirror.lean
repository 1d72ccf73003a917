import Mathlib
import WorkQueue.Proofs.Store.JobRow
import WorkQueue.Proofs.Store.Sound
import WorkQueue.Store.Table

/-! # Tables that show a store in memory

A table whose rows are those of the messages in memory answers every call on messages as the store
in memory does that cuts all times to whole microseconds, and goes on showing it. The two stores
work in unlike ways; what makes them agree is that rows read back, that column texts compare as
times do, and that a scanned message which is written back is still the stored one.
-/

namespace WorkQueue

namespace Call

/-- The times of a call, the stamp of an insertion and the times of snapshots left out. -/
def times : Call → List Instant
  | insert m _ _ => m.visibleAfter.toList ++ m.expiresAt.toList ++ (m.job.map (·.slot)).toList
  | claim _ _ now => [now]
  | heartbeat _ _ now => [now]
  | scan threshold => [threshold]
  | purge now => [now]
  | saveJob job => job.lastFiredSlot.toList ++ [job.armedAt]
  | recordFired _ slot => [slot]
  | _ => []

/-- The wall clock at an insertion. -/
def stamp? : Call → Option Instant
  | insert _ _ stamp => some stamp
  | _ => none

/-- All times of a call have years of four digits. -/
structure Dated (c : Call) : Prop where
  times : ∀ t ∈ c.times, t.FourDigitYear
  stamp : ∀ t ∈ c.stamp?, t.FourDigitYear

instance (c : Call) : Decidable c.Dated :=
  decidable_of_iff ((∀ t ∈ c.times, t.FourDigitYear) ∧ ∀ t ∈ c.stamp?, t.FourDigitYear)
    ⟨fun h => ⟨h.1, h.2⟩, fun h => ⟨h.1, h.2⟩⟩

end Call

/-- The stored messages are told by their rows. -/
def Memory.Legible (s : Memory) : Prop := ∀ m ∈ s.messages, m.Fits

/-- The messages that are stored or were scanned are told by their rows. -/
structure Memory.Recorded (log : List Entry) (s : Memory) : Prop where
  stored : ∀ m ∈ s.messages, m.Fits
  found : ∀ e ∈ log, ∀ m ∈ e.found, m.Fits

namespace Message

open Instant (micros)

variable {c : Call} {r : c.Reply} {m m' : Message}

/-- The message in the state of another: its status, lease, retries and headers. -/
def inState (m m' : Message) : Message :=
  { m with
    status := m'.status
    ownerToken := m'.ownerToken
    lastHeartbeat := m'.lastHeartbeat
    retryCount := m'.retryCount
    requeued := m'.requeued
    headers := m'.headers }

theorem Keeps.inState (h : m.Keeps m') : m.inState m' = m' := by
  cases m'
  obtain ⟨rfl, rfl, rfl, rfl, rfl, rfl, rfl, rfl, rfl, -⟩ := h
  rfl

theorem Keeps.fits (h : m.Keeps m') (hm : m.Fits) (hbeat : ∀ t ∈ m'.lastHeartbeat, t.Exact)
    (hretry : m'.retryCount < UInt32.size) : m'.Fits where
  visibleAfter := h.visibleAfter ▸ hm.visibleAfter
  expiresAt := h.expiresAt ▸ hm.expiresAt
  lastHeartbeat := hbeat
  slot := h.job ▸ hm.slot
  enqueuedAt := h.enqueuedAt ▸ hm.enqueuedAt
  retryCount := hretry

theorem Change.fits (h : m.Change micros c r m') (hm : m.Fits) (hc : c.Dated) : m'.Fits := by
  have hkeeps := h.keeps
  cases h with
  | claim | renew =>
      refine hkeeps.fits hm (fun t ht => ?_) hm.retryCount
      obtain rfl := Option.some.inj ht
      exact Instant.exact_micros (hc.times _ (List.mem_singleton_self _))
  | complete | fail => exact hkeeps.fits hm (by simp [completed, failed]) hm.retryCount
  | reset => exact hkeeps.fits hm (by simp [reclaimed, countRetry]) (nextRetry_lt _)
  | poison => exact hkeeps.fits hm (by simp [poisoned, failed]) (nextRetry_lt _)
  | requeue hrequeue =>
      obtain ⟨-, -, -, rfl⟩ := requeue?_eq_some hrequeue
      exact hkeeps.fits hm hm.lastHeartbeat (nextRetry_lt _)

theorem toMessage_fits {new : NewMessage} {id : MessageId} {stamp : Instant}
    (hc : (Call.insert new id stamp).Dated) (n : Nat) :
    ((new.cut micros).toMessage id n stamp.micros).Fits := by
  have htimes := hc.times
  simp only [Call.times, List.mem_append, Option.mem_toList, or_imp, forall_and] at htimes
  refine ⟨?_, ?_, by simp [NewMessage.toMessage], ?_, Instant.exact_micros (hc.stamp _ rfl),
    (by decide : 0 < UInt32.size)⟩
  · intro t ht
    obtain ⟨a, ha, rfl⟩ := Option.map_eq_some_iff.mp ht
    exact Instant.exact_micros (htimes.1.1 a ha)
  · intro t ht
    obtain ⟨a, ha, rfl⟩ := Option.map_eq_some_iff.mp ht
    exact Instant.exact_micros (htimes.1.2 a ha)
  · intro k hk
    obtain ⟨a, ha, rfl⟩ := Option.map_eq_some_iff.mp hk
    exact Instant.exact_micros (htimes.2 a.slot (Option.mem_map_of_mem _ ha))

end Message

namespace Memory

open Instant (micros)

variable {log : List Entry} {s s' : Memory} {c : Call} {r : c.Reply}

theorem Recorded.empty : Recorded [] .empty := ⟨by simp [Memory.empty], by simp⟩

theorem Recorded.step (hr : s.Recorded log) (hs : s.Sound log) (hc : c.Dated)
    (h : Effect micros s c r s') : s'.Recorded (log ++ [⟨c, r⟩]) := by
  refine ⟨fun m' hm' => ?_, fun e he m hm => ?_⟩
  · rcases h.origin hm' with hm | ⟨m, hm, hchange⟩ | ⟨new, id, stamp, rfl, rfl⟩
    · exact hr.stored m' hm
    · exact hchange.fits (hr.stored m hm) hc
    · exact Message.toMessage_fits hc _
  · rcases List.mem_append.mp he with he | he
    · exact hr.found e he m hm
    · obtain rfl := List.mem_singleton.mp he
      exact hr.stored m (found_stored hs h hm).2.1

end Memory

namespace Table

open Instant (micros)
open MessageRow (ofMessage)

/-- The table with the rows of the messages in memory. -/
def showing (t : Table) (s : Memory) : Table :=
  { t with messages := some (s.messages.map ofMessage), lastSeq := s.lastSequence }

theorem rows_showing (t : Table) (s : Memory) :
    (t.showing s).rows = .ok (s.messages.map ofMessage) := rfl

variable {log : List Entry} {s : Memory} {c : Call} (t : Table)

/-! ## Rows of messages -/

theorem load?_map {ms : List Message} (hfits : ∀ m ∈ ms, m.Fits) (id : MessageId) :
    load? (ms.map ofMessage) id = .ok (ms.find? (·.id = id)) := by
  have hids : (fun r => decide (r.id = id.text)) ∘ ofMessage = fun m => decide (m.id = id) := by
    funext m
    rw [Function.comp_apply, MessageRow.id_ofMessage]
  rw [load?, List.find?_map, hids]
  cases hfind : ms.find? (·.id = id) with
  | none => rfl
  | some m =>
      have hread := MessageRow.toMessage_ofMessage (hfits m (List.mem_of_find?_eq_some hfind))
      change (ofMessage m).toMessage.map some = _
      rw [hread]
      rfl

theorem best?_map (ms : List Message) :
    best? (ms.map ofMessage) = (Memory.best? ms).map ofMessage := by
  induction ms with
  | nil => rfl
  | cons m ms ih =>
      rw [List.map_cons, best?, Memory.best?, ih]
      cases Memory.best? ms with
      | none => rfl
      | some b =>
          simp only [Option.map_some, MessageRow.claimedBefore_ofMessage]
          split <;> rfl

theorem filter_map_congr {ms : List Message} {p : MessageRow → Bool} {q : Message → Bool}
    (h : ∀ m ∈ ms, p (ofMessage m) = q m) :
    (ms.map ofMessage).filter p = (ms.filter q).map ofMessage := by
  rw [List.filter_map]
  exact congrArg _ (List.filter_congr h)

theorem update_map (hd : s.Distinct) {m : Message} (hm : m ∈ s.messages) (m' : Message)
    (hid : m'.id = m.id)
    {p : MessageRow → Bool} {f : MessageRow → MessageRow}
    (hp : ∀ a ∈ s.messages, p (ofMessage a) = true ↔ a.id = m.id)
    (hf : f (ofMessage m) = ofMessage m') :
    update (s.messages.map ofMessage) p f = (s.put m').messages.map ofMessage := by
  rw [update, Memory.put_messages, List.map_map, List.map_map]
  refine List.map_congr_left fun a ha => ?_
  simp only [Function.comp_apply, hp a ha, hid]
  by_cases h : a.id = m.id
  · rw [if_pos h, if_pos h, hd.eq_of_id ha hm h, hf]
  · rw [if_neg h, if_neg h]

/-- The table answers a call as the store in memory does, and goes on showing it. -/
def Agrees (t : Table) (s : Memory) (c : Call) : Prop :=
  (t.showing s).answer c =
    ((s.answerThrough micros c).1, t.showing (s.answerThrough micros c).2)

/-! ## Insertions and claims -/

theorem ofMessage_cut (m : NewMessage) (id : MessageId) (n : Nat) (stamp : Instant) :
    ofMessage (m.toMessage id n stamp) =
      ofMessage ((m.cut micros).toMessage id n stamp.micros) := by
  have hcolumn : Instant.column ∘ micros = Instant.column := funext Instant.micros_column
  have hslot : (fun k => k.slot.column) ∘ JobSlotKey.cut micros = fun k => k.slot.column :=
    funext fun k => Instant.micros_column k.slot
  have hname : (fun k => k.name) ∘ JobSlotKey.cut micros = fun k => k.name := rfl
  simp only [ofMessage, NewMessage.toMessage, NewMessage.cut, Option.map_map, hcolumn, hslot, hname,
    Instant.micros_column]
  rfl

/-- The slot of a key is shown in whole seconds, so cutting it does not show. -/
theorem taken_cut (m : NewMessage) (id : MessageId) :
    taken (m.cut micros).job id = taken m.job id := by
  cases hjob : m.job with
  | none => simp only [taken, NewMessage.cut, hjob, Option.map_none]
  | some k =>
      have htext : (k.cut micros).text = k.text := by
        simp only [JobSlotKey.text, JobSlotKey.cut, Instant.micros_text_seconds]
      simp only [taken, NewMessage.cut, hjob, Option.map_some, htext]

theorem any_clashes {ms : List Message} (hfits : ∀ m ∈ ms, m.Fits) {m : Message} (hm : m.Fits)
    (hwaiting : m.status = .waiting) (hother : ∀ a ∈ ms, a.id ≠ m.id) :
    (ms.map ofMessage).any (·.clashes (ofMessage m)) = Memory.isBlocked ms m.job := by
  rw [Bool.eq_iff_iff, Memory.isBlocked_iff, List.any_map, List.any_eq_true]
  refine exists_congr fun a => and_congr_right fun ha => ?_
  rw [Function.comp_apply, MessageRow.clashes_waiting (hfits a ha) hm hwaiting,
    decide_eq_false (hother a ha), Bool.false_or]

theorem memory_insert (s : Memory) (m : NewMessage) (id : MessageId) (stamp : Instant) :
    s.insert m id stamp =
      if Memory.isBlocked s.messages m.job then (.error (taken m.job id), s)
      else (.ok id, s.add m id stamp) := by
  cases hjob : m.job with
  | none => simp only [Memory.insert, hjob, Memory.isBlocked, Option.any_none, Bool.false_eq_true,
      if_false]
  | some k => simp only [Memory.insert, hjob, taken]

theorem insert_showing (s : Memory) (m : NewMessage) (id : MessageId) (stamp : Instant) :
    let row := ofMessage (m.toMessage id (s.lastSequence + 1) stamp)
    (t.showing s).insert m id stamp =
      if (s.messages.map ofMessage).any (·.clashes row) then (.error (taken m.job id), t.showing s)
      else (.ok id, { t with
        messages := some (s.messages.map ofMessage ++ [row]), lastSeq := s.lastSequence + 1 }) := by
  simp only [insert, guarded, rows_showing, ok_bind]
  by_cases hclash : (s.messages.map ofMessage).any (·.clashes
      (ofMessage (m.toMessage id (s.lastSequence + 1) stamp))) = true
  · rw [if_pos hclash, show (t.showing s).lastSeq = s.lastSequence from rfl, if_pos hclash]
  · rw [if_neg hclash, show (t.showing s).lastSeq = s.lastSequence from rfl, if_neg hclash]
    rfl

theorem insert_agrees (hfits : s.Legible) {m : NewMessage} {id : MessageId} {stamp : Instant}
    (hfresh : ∀ a ∈ s.messages, a.id ≠ id) (hdated : (Call.insert m id stamp).Dated) :
    t.Agrees s (.insert m id stamp) := by
  have hnew := Message.toMessage_fits hdated (s.lastSequence + 1)
  have hclash : (s.messages.map ofMessage).any (·.clashes (ofMessage
      ((m.cut micros).toMessage id (s.lastSequence + 1) stamp.micros))) =
        Memory.isBlocked s.messages (m.cut micros).job :=
    any_clashes hfits hnew rfl hfresh
  change (t.showing s).insert m id stamp = ((s.insert (m.cut micros) id stamp.micros).1,
    t.showing (s.insert (m.cut micros) id stamp.micros).2)
  rw [memory_insert, taken_cut, insert_showing, ofMessage_cut]
  by_cases hblocked : Memory.isBlocked s.messages (m.cut micros).job = true
  · rw [if_pos (hclash.trans hblocked), if_pos hblocked]
  · rw [if_neg (hclash ▸ hblocked), if_neg hblocked]
    simp only [Memory.add, showing, List.map_append, List.map_singleton]

theorem beginLease_row (m : Message) (token : Owner) (now : Instant) :
    { ofMessage m with
      status := "processing", ownerToken := some token.token, lastHeartbeat := some now.column } =
      ofMessage (m.beginLease token now.micros) := by
  simp only [ofMessage, Message.beginLease, Option.map_some, Instant.micros_column, Status.text]
  rfl

theorem claim_agrees (hd : s.Distinct) (hfits : s.Legible) {routes : List String} {token : Owner}
    {now : Instant} (hdated : (Call.claim routes token now).Dated) :
    t.Agrees s (.claim routes token now) := by
  have hnow := hdated.times now (List.mem_singleton_self now)
  have hbest : best? ((s.messages.map ofMessage).filter (·.isClaimable now.column routes)) =
      (Memory.best? (s.messages.filter (·.isClaimable now.micros routes))).map ofMessage := by
    rw [filter_map_congr fun m hm => MessageRow.isClaimable_ofMessage (hfits m hm) hnow routes,
      best?_map]
  change (t.showing s).claim routes token now = ((s.claim routes token now.micros).1,
    t.showing (s.claim routes token now.micros).2)
  simp only [claim, guarded, rows_showing, ok_bind, hbest, Memory.claim]
  cases hfound : Memory.best? (s.messages.filter (·.isClaimable now.micros routes)) with
  | none => rfl
  | some m =>
      obtain ⟨hm, hclaimable⟩ := List.mem_filter.mp (Memory.best?_mem hfound)
      have hleased : (m.beginLease token now.micros).Fits :=
        (Message.Change.claim hclaimable).fits (hfits m hm) hdated
      have hupdate : update (s.messages.map ofMessage) (fun r => decide (r.id = (ofMessage m).id))
          (fun r => { r with
            status := "processing", ownerToken := some token.token
            lastHeartbeat := some now.column }) =
          (s.put (m.beginLease token now.micros)).messages.map ofMessage :=
        update_map hd hm (m.beginLease token now.micros) rfl
          (fun a _ => decide_eq_true_iff.trans MessageRow.id_iff) (beginLease_row m token now)
      have hput : s.modify m.id (·.beginLease token now.micros) =
          s.put (m.beginLease token now.micros) := hd.modify_eq_put hm rfl
      simp only [Option.map_some, hput, hupdate, beginLease_row, MessageRow.cells_ofMessage,
        ok_bind, MessageRow.decode_ofMessage hleased]
      rfl

/-! ## Rows of leases -/

theorem find?_row (hd : s.Distinct) (id : MessageId) (p : MessageRow → Bool) :
    (s.messages.map ofMessage).find? (fun r => decide (r.id = id.text) && p r) =
      ((s.find? id).filter fun m => p (ofMessage m)).map ofMessage := by
  have hrows : (fun r : MessageRow => decide (r.id = id.text) && p r) ∘ ofMessage =
      fun m => decide (m.id = id) && p (ofMessage m) := by
    funext m
    rw [Function.comp_apply, MessageRow.id_ofMessage]
  rw [List.find?_map, hrows, hd.find?_and]

theorem any_row (hd : s.Distinct) (id : MessageId) (p : MessageRow → Bool) :
    (s.messages.map ofMessage).any (fun r => decide (r.id = id.text) && p r) =
      (s.find? id).any fun m => p (ofMessage m) := by
  rw [← List.isSome_find?, find?_row hd, Option.isSome_map, Option.isSome_filter]

theorem load?_showing (hfits : s.Legible) (id : MessageId) :
    load? (s.messages.map ofMessage) id = .ok (s.find? id) := load?_map hfits id

theorem owned_row_iff (hd : s.Distinct) {m : Message} (hm : m ∈ s.messages)
    {p : MessageRow → Bool} (hp : p (ofMessage m) = true) :
    ∀ a ∈ s.messages, (decide ((ofMessage a).id = m.id.text) && p (ofMessage a)) = true ↔
      a.id = m.id := by
  intro a ha
  rw [Bool.and_eq_true, decide_eq_true_eq, MessageRow.id_iff]
  exact ⟨fun h => h.1, fun hid => ⟨hid, hd.eq_of_id ha hm hid ▸ hp⟩⟩

theorem renew_row (m : Message) (now : Instant) :
    { ofMessage m with lastHeartbeat := some now.column } = ofMessage (m.renew now.micros) := by
  simp only [ofMessage, Message.renew, Option.map_some, Instant.micros_column]
  rfl

theorem completed_row (m : Message) :
    { ofMessage m with status := "complete", ownerToken := none, lastHeartbeat := none } =
      ofMessage m.completed := rfl

theorem heartbeat_agrees (hd : s.Distinct) (hfits : s.Legible) (id : MessageId) (token : Owner)
    (now : Instant) : t.Agrees s (.heartbeat id token now) := by
  change (t.showing s).heartbeat id token now = ((s.heartbeat id token now.micros).1,
    t.showing (s.heartbeat id token now.micros).2)
  simp only [heartbeat, guarded, rows_showing, ok_bind, any_row hd, conflict,
    load?_showing hfits, Memory.heartbeat, MessageRow.isOwnedBy_ofMessage]
  cases hfind : s.find? id with
  | none => rfl
  | some m =>
      obtain ⟨hm, rfl⟩ := Memory.find?_some hfind
      by_cases hheld : m.status = .processing
      · by_cases howned : m.isOwnedBy token = true
        · have hrow : (ofMessage m).isOwnedBy token = true := by
            rw [MessageRow.isOwnedBy_ofMessage, hheld, howned]
            rfl
          have hupdate : update (s.messages.map ofMessage)
              (fun r => decide (r.id = m.id.text) && r.isOwnedBy token)
              (fun r => { r with lastHeartbeat := some now.column }) =
              (s.put (m.renew now.micros)).messages.map ofMessage :=
            update_map hd hm (m.renew now.micros) rfl
              (owned_row_iff hd hm (p := (·.isOwnedBy token)) hrow) (renew_row m now)
          have hput : s.modify m.id (·.renew now.micros) = s.put (m.renew now.micros) :=
            hd.modify_eq_put hm rfl
          simp only [Option.any_some, hheld, howned, hupdate, hput]
          rfl
        · simp [hheld, howned]
      · simp [hheld]

theorem complete_agrees (hd : s.Distinct) (hfits : s.Legible) (id : MessageId) (token : Owner) :
    t.Agrees s (.complete id token) := by
  change (t.showing s).complete id token = ((s.complete id token).1,
    t.showing (s.complete id token).2)
  simp only [complete, guarded, rows_showing, ok_bind, any_row hd, load?_showing hfits,
    Memory.complete, MessageRow.isOwnedBy_ofMessage]
  cases hfind : s.find? id with
  | none => rfl
  | some m =>
      obtain ⟨hm, rfl⟩ := Memory.find?_some hfind
      by_cases hheld : m.status = .processing
      · by_cases howned : m.isOwnedBy token = true
        · have hrow : (ofMessage m).isOwnedBy token = true := by
            rw [MessageRow.isOwnedBy_ofMessage, hheld, howned]
            rfl
          have hupdate : update (s.messages.map ofMessage)
              (fun r => decide (r.id = m.id.text) && r.isOwnedBy token)
              (fun r => { r with
                status := "complete", ownerToken := none, lastHeartbeat := none }) =
              (s.put m.completed).messages.map ofMessage :=
            update_map hd hm m.completed rfl
              (owned_row_iff hd hm (p := (·.isOwnedBy token)) hrow) (completed_row m)
          have hput : s.modify m.id (·.completed) = s.put m.completed :=
            hd.modify_eq_put hm rfl
          simp only [Option.any_some, hheld, howned, hupdate, hput]
          rfl
        · simp [hheld, howned, Status.isTerminal]
      · by_cases hcomplete : m.status = .complete
        · simp [hcomplete, Status.isTerminal]
        · simp [hheld, hcomplete, Status.isTerminal_iff]

/-! ## Writing a message back -/

theorem written_row (m m' : Message) :
    { ofMessage m with
      status := m'.status.text
      ownerToken := m'.ownerToken.map (·.token)
      lastHeartbeat := m'.lastHeartbeat.map Instant.column
      retryCount := .integer m'.retryCount
      requeued := .integer (if m'.requeued then 1 else 0)
      headers := m'.headers.column } = ofMessage (m.inState m') := rfl

theorem filter_row (m : Message) :
    (s.messages.map ofMessage).filter (fun r => decide (r.id ≠ (ofMessage m).id)) =
      (s.messages.filter fun a => decide (a.id ≠ m.id)).map ofMessage := by
  refine filter_map_congr fun a _ => ?_
  rw [decide_eq_decide, ne_eq, ne_eq, not_iff_not]
  exact MessageRow.id_iff

/-- A write puts the stored message into the written state, whatever else the written message is. -/
theorem write_found (hd : s.Distinct) {m : Message} (hm : m ∈ s.messages) {m' : Message}
    (hid : m'.id = m.id) {p : MessageRow → Bool} (hp : p (ofMessage m) = true) :
    (t.showing s).write (s.messages.map ofMessage) m' p =
      if ((s.messages.filter fun a => decide (a.id ≠ m.id)).map ofMessage).any
          (·.clashes (ofMessage (m.inState m'))) then
        .error (taken m'.job m'.id)
      else .ok (true, t.showing (s.put (m.inState m'))) := by
  have hupdate : update (s.messages.map ofMessage) (fun r => decide (r.id = (ofMessage m).id))
      (fun _ => ofMessage (m.inState m')) = (s.put (m.inState m')).messages.map ofMessage :=
    update_map hd hm (m.inState m') rfl
      (fun a _ => decide_eq_true_iff.trans MessageRow.id_iff) rfl
  rw [write, find?_row hd, hid, hd.find?_of_mem hm, Option.filter_some, if_pos hp,
    Option.map_some]
  simp only [written_row m m', filter_row, hupdate]
  rfl

theorem write_missed (hd : s.Distinct) {m' : Message} {p : MessageRow → Bool}
    (hp : ∀ m, s.find? m'.id = some m → p (ofMessage m) = false) :
    (t.showing s).write (s.messages.map ofMessage) m' p = .ok (false, t.showing s) := by
  have hnone : ((s.find? m'.id).filter fun m => p (ofMessage m)) = none := by
    cases hfind : s.find? m'.id with
    | none => rfl
    | some m => rw [Option.filter_some, if_neg (by rw [hp m hfind]; exact Bool.false_ne_true)]
  rw [write, find?_row hd, hnone]
  rfl

theorem write_error (hd : s.Distinct) {m : Message} (hm : m ∈ s.messages) {m' : Message}
    (hkeeps : m.Keeps m') (herror : m'.status = .error) {p : MessageRow → Bool}
    (hp : p (ofMessage m) = true) :
    (t.showing s).write (s.messages.map ofMessage) m' p = .ok (true, t.showing (s.put m')) := by
  rw [write_found t hd hm hkeeps.id hp, hkeeps.inState, if_neg]
  rw [List.any_map, List.any_eq_true]
  rintro ⟨a, ha, hclash⟩
  rw [Function.comp_apply, MessageRow.clashes_error a herror, decide_eq_true_eq, hkeeps.id]
    at hclash
  exact of_decide_eq_true (List.mem_filter.mp ha).2 hclash

/-- A message that goes back to waiting clashes with those that block it. -/
theorem write_waiting (hd : s.Distinct) (hfits : ∀ a ∈ s.messages, a.Fits) {m : Message}
    (hm : m ∈ s.messages) {m' : Message} (hkeeps : m.Keeps m') (hm' : m'.Fits)
    (hwaiting : m'.status = .waiting) {p : MessageRow → Bool} (hp : p (ofMessage m) = true) :
    (t.showing s).write (s.messages.map ofMessage) m' p =
      if Memory.isBlocked (s.messages.filter (·.id ≠ m.id)) m'.job then .error (taken m'.job m'.id)
      else .ok (true, t.showing (s.put m')) := by
  rw [write_found t hd hm hkeeps.id hp, hkeeps.inState,
    any_clashes (fun a ha => hfits a (List.mem_of_mem_filter ha)) hm' hwaiting fun a ha =>
      hkeeps.id ▸ of_decide_eq_true (List.mem_filter.mp ha).2]

theorem fail_agrees (hd : s.Distinct) (hfits : s.Legible) (id : MessageId) (token : Owner)
    (reason : String) : t.Agrees s (.fail id token reason) := by
  change (t.showing s).fail id token reason = ((s.fail id token reason).1,
    t.showing (s.fail id token reason).2)
  simp only [fail, guarded, rows_showing, ok_bind, load?_showing hfits, Memory.fail]
  cases hfind : s.find? id with
  | none => rfl
  | some m =>
      obtain ⟨hm, rfl⟩ := Memory.find?_some hfind
      by_cases hheld : m.status = .processing
      · by_cases howned : m.isOwnedBy token = true
        · have hrow : (ofMessage m).isOwnedBy token = true := by
            rw [MessageRow.isOwnedBy_ofMessage, hheld, howned]
            rfl
          have hchange : m.Change micros (.fail m.id token reason) (.ok ()) (m.failed reason) :=
            .fail hheld (Message.isOwnedBy_iff.mp howned)
          have hwrite :=
            write_error t hd hm hchange.keeps rfl (p := (·.isOwnedBy token)) hrow
          have hput : s.modify m.id (·.failed reason) = s.put (m.failed reason) :=
            hd.modify_eq_put hm rfl
          simp only [hheld, howned, hwrite, hput, ok_bind]
          rfl
        · simp [hheld, howned]
      · have hmove : ¬m.status.canMoveTo .error = true := fun h =>
          hheld (Status.canMoveTo_error.mp h)
        simp [hheld, hmove]

/-! ## Leases taken back -/

/-- Writing a scanned message back after a move is making the move on the stored message. -/
theorem recover_agrees (hs : s.Sound log) (hr : s.Recorded log) {scanned : Message} {e : Entry}
    (he : e ∈ log) (hscanned : scanned ∈ e.found) {f : Message → Message}
    (hid : ∀ m, (f m).id = m.id)
    (hwrite : ∀ m ∈ s.messages, m.id = scanned.id → m.leaseUnchanged scanned = true →
      (ofMessage m).leaseUnchanged scanned = true →
      (t.showing s).write (s.messages.map ofMessage) (f m) (·.leaseUnchanged scanned) =
        .ok (true, t.showing (s.put (f m)))) :
    (t.showing s).recover scanned (f scanned) =
      (.ok (s.recover scanned f).1, t.showing (s.recover scanned f).2) := by
  have hrow : ∀ m ∈ s.messages, (ofMessage m).leaseUnchanged scanned = m.leaseUnchanged scanned :=
    fun m hm => MessageRow.leaseUnchanged_ofMessage (hr.stored m hm)
      (hr.found e he scanned hscanned).lastHeartbeat
  simp only [recover, guarded, rows_showing, ok_bind, Memory.recover]
  cases hfind : s.find? scanned.id with
  | none =>
      rw [write_missed t hs.distinct fun m hm => by rw [hid, hfind] at hm; cases hm]
      rfl
  | some m =>
      obtain ⟨hm, hsame⟩ := Memory.find?_some hfind
      by_cases hunchanged : m.leaseUnchanged scanned = true
      · obtain rfl := hs.scanned_eq he hscanned hm hsame hunchanged
        have hput : s.modify scanned.id f = s.put (f scanned) :=
          hs.distinct.modify_eq_put hm (hid scanned)
        rw [hwrite scanned hm rfl hunchanged ((hrow scanned hm).trans hunchanged)]
        simp only [hunchanged, hput]
        rfl
      · rw [write_missed t hs.distinct fun a ha => ?_]
        · simp only [hunchanged]
          rfl
        · rw [hid, hfind] at ha
          obtain rfl := Option.some.inj ha
          rw [hrow m hm, Bool.eq_false_iff]
          exact hunchanged

theorem reset_agrees (hs : s.Sound log) (hr : s.Recorded log) {scanned : Message}
    (hc : (Call.reset scanned).Admissible log) : t.Agrees s (.reset scanned) := by
  obtain ⟨e, he, hscanned⟩ := hc.snapshot_found scanned rfl
  refine recover_agrees t hs hr he hscanned (fun _ => rfl) fun m hm hid hunchanged hrow => ?_
  have hchange : m.Change micros (.reset scanned) (.ok true) m.reclaimed := .reset hid hunchanged
  have hfits := hchange.fits (hr.stored m hm) ⟨by simp [Call.times], by simp [Call.stamp?]⟩
  rw [write_waiting t hs.distinct hr.stored hm hchange.keeps hfits rfl hrow, if_neg]
  rw [Memory.isBlocked_iff]
  rintro ⟨a, ha, hblocks⟩
  have hheld : m.IsUnconsumed := .inr (Message.leaseUnchanged_iff.mp hunchanged).1
  obtain ⟨ha, hne⟩ := List.mem_filter.mp ha
  have hfree := hs.lone a ha m hm (of_decide_eq_true hne) hheld
  rw [hchange.keeps.job, hfree] at hblocks
  cases hblocks

theorem poison_agrees (hs : s.Sound log) (hr : s.Recorded log) {scanned : Message} {reason : String}
    (hc : (Call.poison scanned reason).Admissible log) : t.Agrees s (.poison scanned reason) := by
  obtain ⟨e, he, hscanned⟩ := hc.snapshot_found scanned rfl
  refine recover_agrees t hs hr he hscanned (f := (·.poisoned reason)) (fun _ => rfl)
    fun m hm hid hunchanged hrow => ?_
  have hchange : m.Change micros (.poison scanned reason) (.ok true) (m.poisoned reason) :=
    .poison hid hunchanged
  exact write_error t hs.distinct hm hchange.keeps rfl hrow

theorem requeue_agrees (hd : s.Distinct) (hfits : s.Legible) (id : MessageId) :
    t.Agrees s (.requeue id) := by
  change (t.showing s).requeue id = (.ok (s.requeue id).1, t.showing (s.requeue id).2)
  simp only [requeue, guarded, rows_showing, ok_bind, load?_showing hfits, Memory.requeue]
  cases hrequeue : (s.find? id).bind Message.requeue? with
  | none => rfl
  | some m' =>
      obtain ⟨m, hfind, hrequeued⟩ := Option.bind_eq_some_iff.mp hrequeue
      obtain ⟨hm, rfl⟩ := Memory.find?_some hfind
      have hchange : m.Change micros (.requeue m.id) (.ok true) m' := .requeue hrequeued
      have hmoved := hchange.fits (hfits m hm) ⟨by simp [Call.times], by simp [Call.stamp?]⟩
      obtain ⟨herror, hfirst, -, hmade⟩ := Message.requeue?_eq_some hrequeued
      have hwaiting : m'.status = .waiting := by rw [hmade]; rfl
      have hrow : (decide ((ofMessage m).status = "error") &&
          decide ((ofMessage m).requeued = .integer 0)) = true := by
        simp only [ofMessage, herror, hfirst, Status.text, decide_true, Bool.false_eq_true,
          if_false, Bool.and_self]
      have hput : s.modify m.id (fun _ => m') = s.put m' := by rw [Memory.put, hchange.keeps.id]
      have hwrite := write_waiting t hd hfits hm hchange.keeps hmoved hwaiting
        (p := fun r => decide (r.status = "error") && decide (r.requeued = .integer 0)) hrow
      simp only [hwrite, hput]
      by_cases hblocked : Memory.isBlocked (s.messages.filter (·.id ≠ m.id)) m'.job = true
      · simp only [if_pos hblocked, taken]
      · simp only [if_neg hblocked]

/-! ## Reading and purging -/

theorem scan_agrees (hfits : s.Legible) {threshold : Instant}
    (hdated : (Call.scan threshold).Dated) : t.Agrees s (.scan threshold) := by
  have hthreshold := hdated.times threshold (List.mem_singleton_self threshold)
  change ((t.showing s).scan threshold, t.showing s) = (.ok (s.scan threshold.micros), t.showing s)
  rw [scan, rows_showing, ok_bind, filter_map_congr fun m hm =>
    MessageRow.leaseExpired_ofMessage (hfits m hm) hthreshold,
    read_map _ _ MessageRow.cellsOf (fun m _ => MessageRow.cells_ofMessage m) fun m hm =>
      MessageRow.decode_ofMessage (hfits m (List.mem_of_mem_filter hm))]
  rfl

theorem purge_agrees (hfits : s.Legible) {now : Instant} (hdated : (Call.purge now).Dated) :
    t.Agrees s (.purge now) := by
  have hnow := hdated.times now (List.mem_singleton_self now)
  change (t.showing s).purge now = (.ok (s.purge now.micros).1, t.showing (s.purge now.micros).2)
  simp only [purge, guarded, rows_showing, ok_bind, Memory.purge]
  rw [filter_map_congr (q := fun m => !m.isPurgeable now.micros) fun m hm => by
    rw [MessageRow.isPurgeable_ofMessage (hfits m hm) hnow]]
  simp only [List.length_map]
  rfl

theorem get_agrees (hfits : s.Legible) (id : MessageId) : t.Agrees s (.get id) := by
  change ((t.showing s).rows.bind (load? · id), t.showing s) = (.ok (s.find? id), t.showing s)
  rw [rows_showing]
  exact congrArg (·, t.showing s) (load?_showing hfits id)

theorem countForJob_agrees (s : Memory) (name : String) : t.Agrees s (.countForJob name) := by
  have hcount : (s.messages.map ofMessage).countP (fun r => decide (r.jobName = some name)) =
      s.messages.countP fun m => m.job.any (·.name == name) := by
    rw [List.countP_map]
    refine List.countP_congr fun m _ => ?_
    rw [Function.comp_apply, decide_eq_true_iff, ofMessage]
    cases m.job <;> simp
  change (Except.ok ((s.messages.map ofMessage).countP _), t.showing s) = (Except.ok _, t.showing s)
  rw [hcount]

/-- Calls on messages are answered by the two stores alike. -/
theorem agrees (hs : s.Sound log) (hr : s.Recorded log) (hc : c.Admissible log) (hdated : c.Dated)
    (hjob : c.isJobCall = false) : t.Agrees s c := by
  cases c with
  | insert _ id => exact insert_agrees t hr.stored (hs.fresh hc id rfl) hdated
  | claim => exact claim_agrees t hs.distinct hr.stored hdated
  | heartbeat => exact heartbeat_agrees t hs.distinct hr.stored _ _ _
  | complete => exact complete_agrees t hs.distinct hr.stored _ _
  | fail => exact fail_agrees t hs.distinct hr.stored _ _ _
  | scan => exact scan_agrees t hr.stored hdated
  | reset => exact reset_agrees t hs hr hc
  | poison => exact poison_agrees t hs hr hc
  | requeue => exact requeue_agrees t hs.distinct hr.stored _
  | purge => exact purge_agrees t hr.stored hdated
  | get => exact get_agrees t hr.stored _
  | countForJob => exact countForJob_agrees t s _
  | saveJob | loadJobs | removeJob | recordFired => cases hjob

end Table

end WorkQueue
