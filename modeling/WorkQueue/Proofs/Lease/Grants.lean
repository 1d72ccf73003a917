import Mathlib
import WorkQueue.Proofs.Store.Seats

/-! # Granted leases

A store grants a lease while it holds the message under the token of the lease. This is read from
the store itself, so that it is known of every table that calls lead to, whatever times they were
given. A lease that is granted was claimed under its token; one that is not granted cannot be used,
and it is not granted again as long as tokens are fresh.
-/

namespace WorkQueue

/-- The entry of the claim that began a lease: it handed the message out, or it failed and left the
message under its token. -/
def Entry.Began (e : Entry) (lease : Lease) : Prop :=
  e.call.claimToken? = some lease.token ∧ (e.begun? = some lease ∨ ∃ error, e.reply = .error error)

namespace Backend

def seats : Backend → List Seat
  | memory s => s.seats
  | table t => t.seats

/-- The store holds the message under the lease. -/
def Grants (b : Backend) (lease : Lease) : Prop := lease.seat ∈ b.seats

instance (b : Backend) (lease : Lease) : Decidable (b.Grants lease) :=
  inferInstanceAs (Decidable (lease.seat ∈ b.seats))

/-- The message is complete. -/
def Finished (b : Backend) (id : MessageId) : Prop :=
  ∃ seat ∈ b.seats, seat.id = id.text ∧ seat.status = "complete"

instance (b : Backend) (id : MessageId) : Decidable (b.Finished id) :=
  inferInstanceAs (Decidable (∃ seat ∈ b.seats, seat.id = id.text ∧ seat.status = "complete"))

variable {b : Backend} {log : List Entry} {c : Call} {lease : Lease}

/-- What the log of the calls tells of a store. -/
structure Booked (b : Backend) (log : List Entry) : Prop where
  distinct : (b.seats.map (·.id)).Nodup
  inserted : ∀ seat ∈ b.seats, ∃ e ∈ log, ∃ id, e.call.insertedId? = some id ∧ seat.id = id.text
  claimed : ∀ lease, b.Grants lease → ∃ e ∈ log, e.Began lease

theorem Booked.start (h : b = .memory .empty ∨ b = .table .empty) : b.Booked [] := by
  have hnone : b.seats = [] := by rcases h with rfl | rfl <;> rfl
  constructor
  · rw [hnone]
    exact List.nodup_nil
  · intro seat hseat
    rw [hnone] at hseat
    cases hseat
  · intro lease hgrants
    rw [Grants, hnone] at hgrants
    cases hgrants

theorem Booked.memory_distinct {s : Memory} (h : (memory s).Booked log) : s.Distinct := by
  have hids := h.distinct
  rw [seats, Memory.seats, List.map_map] at hids
  apply List.Nodup.of_map MessageId.text
  rwa [List.map_map]

theorem Booked.turn (h : b.Booked log) (c : Call) :
    Turn b.seats c (b.answer c).1 (b.answer c).2.seats := by
  cases b with
  | memory s => exact Memory.turn h.memory_distinct c
  | table t => exact Table.turn h.distinct c

theorem Booked.step (h : b.Booked log) (hfresh : c.Fresh log) :
    (b.answer c).2.Booked (log ++ [⟨c, (b.answer c).1⟩]) := by
  have hturn := h.turn c
  constructor
  · apply hturn.distinct h.distinct
    rintro id hid seat hseat hsame
    obtain ⟨e, he, other, hother, hseatid⟩ := h.inserted seat hseat
    obtain rfl := MessageId.text_injective (hsame.symm.trans hseatid)
    exact hfresh.id_fresh id hid e he hother
  · intro seat hseat
    rcases hturn.origin hseat with ⟨a, ha, hid⟩ | ⟨id, hid, hseatid⟩
    · obtain ⟨e, he, id, hinserted, hsame⟩ := h.inserted a ha
      exact ⟨e, List.mem_append_left _ he, id, hinserted, hid ▸ hsame⟩
    · exact ⟨_, List.mem_append_right _ (List.mem_singleton_self _), id, hid, hseatid⟩
  · intro lease hgrants
    rcases hturn.held_or_claimed hgrants with hold | hclaim
    · obtain ⟨e, he, hbegan⟩ := h.claimed lease hold
      exact ⟨e, List.mem_append_left _ he, hbegan⟩
    · refine ⟨_, List.mem_append_right _ (List.mem_singleton_self _), hclaim.1, ?_⟩
      exact hclaim.2

theorem Booked.begun_granted (h : b.Booked log)
    (hbegun : Entry.begun? ⟨c, (b.answer c).1⟩ = some lease) : (b.answer c).2.Grants lease := by
  have hturn := h.turn c
  rw [Grants]
  revert hturn hbegun
  generalize (b.answer c).1 = r, (b.answer c).2.seats = seats'
  intro hbegun hturn
  cases c with
  | claim routes token now =>
      cases r with
      | error e => cases hbegun
      | ok found =>
          obtain ⟨m, rfl, rfl⟩ := Option.map_eq_some_iff.mp hbegun
          cases hturn with
          | kept hchanged => cases hchanged
          | freed hfrees => cases hfrees
          | claimed hstored _ htold =>
              obtain ⟨-, -, id, -, hid⟩ := h.inserted _ hstored
              obtain ⟨m', heq, hm⟩ := htold _ rfl
              obtain rfl := Option.some.inj heq
              rw [hid, MessageId.ofText?_text] at hm
              obtain rfl := Option.some.inj hm
              rw [hid]
              exact Seat.mem_place_self hstored hid
  | _ => cases hbegun

theorem Booked.lost_stays (h : b.Booked log) (hfresh : c.Fresh log)
    (hdrawn : ∃ e ∈ log, e.call.claimToken? = some lease.token) (hlost : ¬ b.Grants lease) :
    ¬ (b.answer c).2.Grants lease := by
  intro hgrants
  rcases (h.turn c).held_or_claimed hgrants with hold | ⟨htoken, -⟩
  · exact hlost hold
  · obtain ⟨e, he, hdrawn⟩ := hdrawn
    exact hfresh.token_fresh _ htoken e he hdrawn

theorem Booked.finished_by (h : b.Booked log) {id : MessageId}
    (hdone : (b.answer c).2.Finished id) :
    b.Finished id ∨ ∃ token, c = .complete id token ∧ b.Grants ⟨id, token⟩ := by
  obtain ⟨seat, hseat, hid, hcomplete⟩ := hdone
  rcases (h.turn c).complete_or_settled hseat hcomplete with
    hold | ⟨lease, hlease, hheld, rfl⟩
  · exact .inl ⟨seat, hold, hid, hcomplete⟩
  · obtain rfl := MessageId.text_injective (hid.symm.trans hlease)
    exact .inr ⟨lease.token, rfl, hheld⟩

/-! ## Using a lease -/

theorem message_of_seat {s : Memory} (hgrants : (memory s).Grants lease) :
    ∃ m ∈ s.messages, m.seat = lease.seat ∧ m.id = lease.id ∧ m.status = .processing ∧
      m.ownerToken = some lease.token := by
  obtain ⟨m, hm, hseat⟩ := List.mem_map.mp hgrants
  obtain ⟨hid, hstatus, howner⟩ := Seat.mk.inj hseat
  refine ⟨m, hm, hseat, MessageId.text_injective hid, ?_, ?_⟩
  · have htext := (MessageRow.processing_text m.status).symm.trans (decide_eq_true hstatus)
    exact beq_iff_eq.mp htext
  · obtain ⟨⟨text⟩, howned, rfl⟩ := Option.map_eq_some_iff.mp howner
    exact howned

theorem row_of_seat {t : Table} (hgrants : (table t).Grants lease) :
    ∃ rows, t.messages = some rows ∧ rows.any (·.isHeld lease.id lease.token) = true := by
  obtain ⟨r, hr, hseat⟩ := List.mem_map.mp hgrants
  cases hrows : t.messages with
  | none =>
      rw [hrows] at hr
      cases hr
  | some rows =>
      rw [hrows] at hr
      exact ⟨rows, rfl, List.any_eq_true.mpr ⟨r, hr, Table.isHeld_iff.mpr hseat⟩⟩

theorem memory_settle_lost {s : Memory} (hlost : ¬ (memory s).Grants lease)
    (hc : c.settled? = some lease) : (s.answer c).2 = s := by
  have hother {m : Message} (hfind : s.find? lease.id = some m) :
      ¬ (m.status = .processing ∧ m.ownerToken = some lease.token) := by
    rintro ⟨hheld, howned⟩
    obtain ⟨hm, hid⟩ := Memory.find?_some hfind
    have hseat := Memory.held_seat hm hheld howned
    rw [hid] at hseat
    exact hlost hseat
  cases c with
  | complete id token =>
      obtain rfl := Option.some.inj hc
      change (s.complete id token).2 = s
      unfold Memory.complete
      split
      · rfl
      · rename_i m hfind
        have hrefused : (m.status = .processing && m.isOwnedBy token) = false := by
          simpa [Message.isOwnedBy] using hother hfind
        rw [hrefused]
        split <;> rfl
  | fail id token reason =>
      obtain rfl := Option.some.inj hc
      change (s.fail id token reason).2 = s
      unfold Memory.fail
      split
      · rfl
      · rename_i m hfind
        have hrefused : (m.status.canMoveTo .error && m.isOwnedBy token) = false := by
          simpa [Message.isOwnedBy, Status.canMoveTo_error] using hother hfind
        rw [hrefused]
        rfl
  | _ => cases hc

theorem table_settle_lost {t : Table} (hlost : ¬ (table t).Grants lease)
    (hc : c.settled? = some lease) : (t.answer c).2 = t := by
  have houtcome := t.answer_outcome c
  revert houtcome
  generalize (t.answer c).1 = r, (t.answer c).2 = t'
  intro houtcome
  cases houtcome with
  | kept | repeated => rfl
  | completed hrows hheld =>
      obtain rfl := Option.some.inj hc
      exact absurd (Table.held_mem hrows hheld) hlost
  | written hrows hr hid hwrites =>
      cases hwrites with
      | fail hheld =>
          obtain rfl := Option.some.inj hc
          have hseat := Table.mem_seats hrows hr
          rw [Table.isHeld_iff.mp (Bool.and_eq_true_iff.mpr ⟨decide_eq_true hid, hheld⟩)] at hseat
          exact absurd hseat hlost
      | _ => cases hc
  | jobs hjob =>
      cases c with
      | complete | fail => cases hjob
      | _ => cases hc
  | _ => cases hc

/-- Settling a lease that is not granted changes nothing. -/
theorem settle_lost (hlost : ¬ b.Grants lease) (hc : c.settled? = some lease) :
    (b.answer c).2 = b := by
  cases b with
  | memory s => exact congrArg memory (memory_settle_lost hlost hc)
  | table t => exact congrArg table (table_settle_lost hlost hc)

/-- A completion succeeds while the lease is granted, or on a complete message; and the message is
complete then. -/
theorem Booked.complete_ok (h : b.Booked log) {u : Unit}
    (hok : (b.answer (.complete lease.id lease.token)).1 = .ok u) :
    (b.Grants lease ∨ b.Finished lease.id) ∧
      (b.answer (.complete lease.id lease.token)).2.Finished lease.id := by
  have hturn := h.turn (.complete lease.id lease.token)
  rw [hok] at hturn
  exact hturn.completed_held

/-! ## The holder of a lease -/

/-- The store holds the message under the lease, which was renewed last at a time. -/
def Renewed (lease : Lease) (now : Instant) : Backend → Prop
  | memory s => ∃ m ∈ s.messages, m.seat = lease.seat ∧ m.lastHeartbeat = some now
  | table t => ∃ r ∈ t.messages.getD [], r.seat = lease.seat ∧ r.lastHeartbeat = some now.column

theorem memory_granted {s : Memory} (hd : s.Distinct) (hgrants : (memory s).Grants lease) :
    (s.complete lease.id lease.token).1 = .ok () ∧
      ∀ now, (s.heartbeat lease.id lease.token now).1 = .ok () ∧
        (memory (s.heartbeat lease.id lease.token now).2).Renewed lease now := by
  obtain ⟨m, hm, hseat, hid, hheld, howned⟩ := message_of_seat hgrants
  have hfind := hd.find?_of_mem hm
  rw [hid] at hfind
  have hmine : m.isOwnedBy lease.token = true := Message.isOwnedBy_iff.mpr howned
  constructor
  · simp [Memory.complete, hfind, hheld, hmine, Status.isTerminal]
  · intro now
    have hrenewed : s.heartbeat lease.id lease.token now =
        (.ok (), s.modify lease.id (·.renew now)) := by
      simp [Memory.heartbeat, hfind, hheld, hmine]
    rw [hrenewed]
    exact ⟨rfl, m.renew now, List.mem_map.mpr ⟨m, hm, if_pos hid⟩, hseat, rfl⟩

theorem table_granted {t : Table} (hgrants : (table t).Grants lease) :
    (t.complete lease.id lease.token).1 = .ok () ∧
      ∀ now, (t.heartbeat lease.id lease.token now).1 = .ok () ∧
        (table (t.heartbeat lease.id lease.token now).2).Renewed lease now := by
  obtain ⟨rows, hstored, hany⟩ := row_of_seat hgrants
  have hrows : t.rows = .ok rows := by rw [Table.rows, hstored]
  constructor
  · rw [Table.complete, hrows, ok_bind]
    change (t.guarded (if rows.any (·.isHeld lease.id lease.token) then _ else _)).1 = _
    rw [if_pos hany]
    rfl
  · intro now
    have hrenewed : t.heartbeat lease.id lease.token now = (.ok (), { t with
        messages := some (Table.update rows (·.isHeld lease.id lease.token) fun r =>
          { r with lastHeartbeat := some now.column }) }) := by
      rw [Table.heartbeat, hrows, ok_bind]
      change t.guarded (if rows.any (·.isHeld lease.id lease.token) then _ else _) = _
      rw [if_pos hany]
      rfl
    rw [hrenewed]
    obtain ⟨r, hr, hheld⟩ := List.any_eq_true.mp hany
    refine ⟨rfl, { r with lastHeartbeat := some now.column }, ?_, ?_, rfl⟩
    · exact List.mem_map.mpr ⟨r, hr, if_pos hheld⟩
    · exact Table.isHeld_iff.mp hheld

/-- A lease that is granted can be renewed and settled. -/
theorem Booked.granted (h : b.Booked log) (hgrants : b.Grants lease) :
    (b.answer (.complete lease.id lease.token)).1 = .ok () ∧
      ∀ now, (b.answer (.heartbeat lease.id lease.token now)).1 = .ok () ∧
        (b.answer (.heartbeat lease.id lease.token now)).2.Renewed lease now := by
  cases b with
  | memory s => exact memory_granted h.memory_distinct hgrants
  | table t => exact table_granted hgrants

end Backend

end WorkQueue
