import Mathlib
import WorkQueue.Proofs.Lease.Fencing
import WorkQueue.Proofs.Store.Outcome

/-! # Who holds a message

Of a message that a store of either kind keeps, its seat is the identifier, the status and the token
that it is held under, as texts. The seats alone tell what a claim, a renewal or a settlement does,
whether the rows of a table read back or not.
-/

namespace WorkQueue

structure Seat where
  id : String
  status : String
  owner : Option String
  deriving Repr, DecidableEq

def Message.seat (m : Message) : Seat := ⟨m.id.text, m.status.text, m.ownerToken.map (·.token)⟩

def MessageRow.seat (r : MessageRow) : Seat := ⟨r.id, r.status, r.ownerToken⟩

/-- The seat of a message that is held under a lease. -/
def Lease.seat (l : Lease) : Seat := ⟨l.id.text, "processing", some l.token.token⟩

namespace Seat

/-- Put a seat in the place of the one of the same message. -/
def place (seats : List Seat) (seat : Seat) : List Seat :=
  seats.map fun a => if a.id = seat.id then seat else a

variable {seats : List Seat} {seat a : Seat}

theorem mem_place_of_ne (h : a ∈ seats) (hne : a.id ≠ seat.id) : a ∈ place seats seat :=
  List.mem_map.mpr ⟨a, h, if_neg hne⟩

theorem mem_place_self (h : a ∈ seats) (hid : a.id = seat.id) : seat ∈ place seats seat :=
  List.mem_map.mpr ⟨a, h, if_pos hid⟩

theorem eq_or_mem_of_place (h : a ∈ place seats seat) : a = seat ∨ a ∈ seats ∧ a.id ≠ seat.id := by
  obtain ⟨b, hb, rfl⟩ := List.mem_map.mp h
  by_cases hid : b.id = seat.id
  · exact .inl (if_pos hid)
  · rw [if_neg hid]
    exact .inr ⟨hb, hid⟩

theorem place_ids (seats : List Seat) (seat : Seat) :
    (place seats seat).map (·.id) = seats.map (·.id) := by
  rw [place, List.map_map]
  apply List.map_congr_left
  intro a _
  by_cases hid : a.id = seat.id
  · simp [hid]
  · simp [hid]

theorem place_mem (hd : (seats.map (·.id)).Nodup) (h : seat ∈ seats) :
    place seats seat = seats := by
  have hsame : place seats seat = seats.map fun a => a := by
    apply List.map_congr_left
    intro a ha
    by_cases hid : a.id = seat.id
    · rw [if_pos hid, List.inj_on_of_nodup_map hd ha h hid]
    · rw [if_neg hid]
  rw [hsame, List.map_id']

end Seat

/-! ## One call -/

namespace Call

/-- The message that a call frees, with the token that it is held under and the status that it gets
then. -/
def frees? : Call → Option (MessageId × Option Owner × Status)
  | complete id token => some (id, some token, .complete)
  | fail id token _ => some (id, some token, .error)
  | reset scanned => some (scanned.id, scanned.ownerToken, .waiting)
  | poison scanned _ => some (scanned.id, scanned.ownerToken, .error)
  | _ => none

end Call

/-- What a call with its reply does to the seats of a store. -/
inductive Turn (seats : List Seat) : (c : Call) → c.Reply → List Seat → Prop where
  /-- The reply tells of no change. -/
  | kept {c : Call} {r : c.Reply} (changed : Entry.changed? ⟨c, r⟩ = none)
      (completed : Entry.completed? ⟨c, r⟩ = none) : Turn seats c r seats
  | added {m : NewMessage} {id : MessageId} {stamp : Instant} :
      Turn seats (.insert m id stamp) (.ok id) (seats ++ [⟨id.text, "waiting", none⟩])
  /-- The claim hands the message out, or it fails when it reads the message back. -/
  | claimed {routes : List String} {token : Owner} {now : Instant} {seat : Seat}
      {r : Except StoreError (Option Message)} (stored : seat ∈ seats)
      (waiting : seat.status = "waiting") (told : ∀ found, r = .ok found →
        ∃ m, found = some m ∧ MessageId.ofText? seat.id = some m.id) :
      Turn seats (.claim routes token now) r
        (Seat.place seats ⟨seat.id, "processing", some token.token⟩)
  | renewed {id : MessageId} {token : Owner} {now : Instant}
      (held : (Lease.mk id token).seat ∈ seats) :
      Turn seats (.heartbeat id token now) (.ok ()) seats
  | freed {c : Call} {value : c.Value} {id : MessageId} {token : Option Owner} {status : Status}
      (frees : c.frees? = some (id, token, status))
      (held : ⟨id.text, "processing", token.map (·.token)⟩ ∈ seats) :
      Turn seats c (.ok value) (Seat.place seats ⟨id.text, status.text, none⟩)
  | repeated {id : MessageId} {token : Owner} {seat : Seat} (stored : seat ∈ seats)
      (same : seat.id = id.text) (complete : seat.status = "complete") :
      Turn seats (.complete id token) (.ok ()) seats
  | requeued {id : MessageId} {seat : Seat} {token : Option String} (stored : seat ∈ seats)
      (same : seat.id = id.text) (failed : seat.status = "error") :
      Turn seats (.requeue id) (.ok true) (Seat.place seats ⟨id.text, "waiting", token⟩)
  | purged {now : Instant} {n : Nat} {rest : List Seat} (part : rest.Sublist seats)
      (stays : ∀ seat ∈ seats, seat.status ≠ "waiting" → seat ∈ rest) :
      Turn seats (.purge now) (.ok n) rest

namespace Memory

variable {s : Memory} {c : Call}

def seats (s : Memory) : List Seat := s.messages.map (·.seat)

theorem put_seats (s : Memory) (m : Message) : (s.put m).seats = Seat.place s.seats m.seat := by
  simp only [seats, put_messages, Seat.place, List.map_map]
  apply List.map_congr_left
  intro a _
  by_cases hid : a.id = m.id
  · simp [hid, Message.seat]
  · have hne : a.id.text ≠ m.id.text := fun htext => hid (MessageId.text_injective htext)
    simp [hid, hne, Message.seat]

theorem Distinct.seats (hd : s.Distinct) : (s.seats.map (·.id)).Nodup := by
  rw [Memory.seats, List.map_map]
  have htexts := hd.map fun a b => MessageId.text_injective
  rwa [List.map_map] at htexts

theorem mem_seats {m : Message} (h : m ∈ s.messages) : m.seat ∈ s.seats := List.mem_map_of_mem h

theorem held_seat {m : Message} {token : Option Owner} (h : m ∈ s.messages)
    (hheld : m.status = .processing) (howned : m.ownerToken = token) :
    ⟨m.id.text, "processing", token.map (·.token)⟩ ∈ s.seats := by
  have hseat := mem_seats h
  rwa [Message.seat, hheld, howned] at hseat

theorem turn (hd : s.Distinct) (c : Call) : Turn s.seats c (s.answer c).1 (s.answer c).2.seats := by
  have heffect := answer_effect hd c
  revert heffect
  generalize (s.answer c).1 = r, (s.answer c).2 = s'
  intro heffect
  cases heffect with
  | kept hmessages _ hchanged _ hcompleted =>
      have hsame : s'.seats = s.seats := by rw [seats, hmessages, seats]
      rw [hsame]
      cases hid : Entry.completed? ⟨c, r⟩ with
      | none => exact .kept hchanged hid
      | some id =>
          obtain ⟨m, hm, rfl, hcomplete⟩ := hcompleted id hid
          cases c with
          | complete id token =>
              cases r with
              | error e => cases hid
              | ok u =>
                  obtain rfl := Option.some.inj hid
                  apply Turn.repeated (mem_seats hm) rfl
                  rw [Message.seat, hcomplete]
                  rfl
          | _ => cases hid
  | scanned => exact .kept rfl rfl
  | added =>
      simp only [seats, add, List.map_append]
      exact .added
  | @changed c r m m' hfind hchange =>
      have hm := (find?_some hfind).1
      rw [put_seats]
      cases hchange with
      | claim hclaimable =>
          apply Turn.claimed (mem_seats hm)
          · rw [Message.seat, Message.isClaimable_waiting hclaimable]
            rfl
          · rintro _ ⟨rfl⟩
            exact ⟨_, rfl, MessageId.ofText?_text _⟩
      | renew hheld howned =>
          -- the seat does not tell when a lease was renewed
          change Turn s.seats _ _ (Seat.place s.seats m.seat)
          rw [Seat.place_mem hd.seats (mem_seats hm)]
          exact .renewed (held_seat hm hheld howned)
      | complete hheld howned | fail hheld howned =>
          have hseat := held_seat hm hheld howned
          exact .freed rfl hseat
      | reset hid hunchanged =>
          obtain ⟨hheld, howned, -⟩ := Message.leaseUnchanged_iff.mp hunchanged
          have hseat := held_seat hm hheld howned
          exact .freed (c := .reset _) (hid ▸ rfl) hseat
      | poison hid hunchanged =>
          obtain ⟨hheld, howned, -⟩ := Message.leaseUnchanged_iff.mp hunchanged
          have hseat := held_seat hm hheld howned
          exact .freed (c := .poison _ _) (hid ▸ rfl) hseat
      | requeue hrequeue =>
          obtain ⟨hfailed, -, -, rfl⟩ := Message.requeue?_eq_some hrequeue
          apply Turn.requeued (mem_seats hm) rfl
          rw [Message.seat, hfailed]
          rfl
  | @purged now n =>
      apply Turn.purged
      · exact List.filter_sublist.map _
      · intro seat hseat hstatus
        obtain ⟨m, hm, rfl⟩ := List.mem_map.mp hseat
        apply List.mem_map_of_mem
        apply List.mem_filter.mpr
        refine ⟨hm, ?_⟩
        simp only [Bool.not_eq_true', Bool.eq_false_iff]
        intro hpurgeable
        apply hstatus
        rw [Message.seat, Message.isPurgeable_waiting hpurgeable]
        rfl

end Memory

namespace Table

variable {t : Table} {rows : List MessageRow}

def seats (t : Table) : List Seat := (t.messages.getD []).map (·.seat)

theorem seats_of (h : t.messages = some rows) : t.seats = rows.map (·.seat) := by
  rw [seats, h, Option.getD_some]

theorem mem_seats (h : t.messages = some rows) {r : MessageRow} (hr : r ∈ rows) :
    r.seat ∈ t.seats := seats_of h ▸ List.mem_map_of_mem hr

theorem update_seats (hrows : t.messages = some rows) {f : MessageRow → MessageRow}
    {id status : String} {owner : Option String}
    (hf : ∀ r, r.id = id → (f r).seat = ⟨id, status, owner⟩) :
    Table.seats { t with messages := some (update rows (·.id = id) f) } =
      Seat.place t.seats ⟨id, status, owner⟩ := by
  rw [seats_of hrows]
  simp only [seats, Option.getD_some, update, Seat.place, List.map_map]
  apply List.map_congr_left
  intro r _
  have hid : r.seat.id = r.id := rfl
  by_cases hr : r.id = id
  · simp [hr, hid, hf r hr]
  · simp [hr, hid]

theorem isHeld_iff {r : MessageRow} {id : MessageId} {token : Owner} :
    r.isHeld id token = true ↔ r.seat = (Lease.mk id token).seat := by
  simp [MessageRow.isHeld, MessageRow.isOwnedBy, MessageRow.seat, Lease.seat]

theorem unchanged_seat {r : MessageRow} {scanned : Message}
    (h : r.leaseUnchanged scanned = true) :
    r.seat = ⟨r.id, "processing", scanned.ownerToken.map (·.token)⟩ := by
  simp only [MessageRow.leaseUnchanged, Bool.and_eq_true, decide_eq_true_eq] at h
  rw [MessageRow.seat, h.1.1, h.1.2]

theorem update_held (hd : ((rows.map (·.seat)).map (·.id)).Nodup) {id : MessageId} {token : Owner}
    (hheld : rows.any (·.isHeld id token) = true) (f : MessageRow → MessageRow) :
    update rows (·.isHeld id token) f = update rows (·.id = id.text) f := by
  obtain ⟨held, hmem, hheld⟩ := List.any_eq_true.mp hheld
  apply List.map_congr_left
  intro r hr
  by_cases hid : r.id = id.text
  · have hsame : r = held := by
      rw [List.map_map] at hd
      apply List.inj_on_of_nodup_map hd hr hmem
      have := congrArg Seat.id (isHeld_iff.mp hheld)
      exact hid.trans this.symm
    simp [hsame ▸ hheld, hid]
  · have hother : r.isHeld id token = false := by simp [MessageRow.isHeld, hid]
    simp [hother, hid]

theorem held_mem (hrows : t.messages = some rows) {id : MessageId} {token : Owner}
    (hheld : rows.any (·.isHeld id token) = true) : (Lease.mk id token).seat ∈ t.seats := by
  obtain ⟨r, hr, hheld⟩ := List.any_eq_true.mp hheld
  rw [seats_of hrows, ← isHeld_iff.mp hheld]
  exact List.mem_map_of_mem hr

/-! The cases of a call that changes rows, one for each outcome. -/

theorem claimed_turn {routes : List String} {token : Owner} {now : Instant} {r : MessageRow}
    {cells : MessageRow.Cells} (hrows : t.messages = some rows)
    (hfirst : best? (rows.filter (·.isClaimable now.column routes)) = some r) :
    Turn t.seats (.claim routes token now) (((r.leased token now).decode cells).map some)
      (Table.seats
        { t with messages := some (update rows (·.id = r.id) (·.leased token now)) }) := by
  obtain ⟨hr, hwaiting⟩ := best?_claimable hfirst
  have hleased (a : MessageRow) (ha : a.id = r.id) :
      (a.leased token now).seat = ⟨r.id, "processing", some token.token⟩ := by
    rw [MessageRow.seat, MessageRow.leased, ha]
  rw [update_seats hrows hleased]
  apply Turn.claimed (mem_seats hrows hr) hwaiting
  intro found hfound
  cases hread : (r.leased token now).decode cells with
  | error e =>
      rw [hread] at hfound
      cases hfound
  | ok m =>
      rw [hread] at hfound
      obtain rfl := Except.ok.inj hfound
      exact ⟨m, rfl, (MessageRow.decode_parts hread).1⟩

theorem renewed_seats (hrows : t.messages = some rows) (p : MessageRow → Bool) (beat : String) :
    Table.seats { t with
      messages := some (update rows p fun r => { r with lastHeartbeat := some beat }) } =
        t.seats := by
  rw [seats_of hrows]
  simp only [seats, Option.getD_some, update, List.map_map]
  apply List.map_congr_left
  intro r _
  by_cases hp : p r = true <;> simp [hp, MessageRow.seat]

theorem completed_turn (hd : (t.seats.map (·.id)).Nodup) {id : MessageId} {token : Owner}
    (hrows : t.messages = some rows) (hheld : rows.any (·.isHeld id token) = true) :
    Turn t.seats (.complete id token) (.ok ())
      (Table.seats { t with
        messages := some (update rows (·.isHeld id token) fun r =>
          { r with status := "complete", ownerToken := none, lastHeartbeat := none }) }) := by
  have hcomplete (r : MessageRow) (hr : r.id = id.text) :
      MessageRow.seat { r with status := "complete", ownerToken := none, lastHeartbeat := none } =
        ⟨id.text, Status.complete.text, none⟩ := by
    rw [MessageRow.seat, hr]
    rfl
  have hdistinct : ((rows.map (·.seat)).map (·.id)).Nodup := by rwa [← seats_of hrows]
  have hfrees : (Call.complete id token).frees? = some (id, some token, .complete) := rfl
  rw [update_held hdistinct hheld, update_seats hrows hcomplete]
  exact .freed hfrees (held_mem hrows hheld)

theorem written_turn {c : Call} {value : c.Value} {r : MessageRow} {m : Message}
    (hrows : t.messages = some rows) (hr : r ∈ rows) (hid : r.id = m.id.text)
    (hwrites : c.Writes value r m) :
    Turn t.seats c (.ok value)
      (Table.seats { t with messages := some (update rows (·.id = r.id) fun _ => r.moved m) }) := by
  have hmoved (a : MessageRow) (_ : a.id = r.id) :
      (r.moved m).seat = ⟨r.id, m.status.text, m.ownerToken.map (·.token)⟩ := rfl
  have hseat := mem_seats hrows hr
  rw [update_seats hrows hmoved, hid]
  cases hwrites with
  | @fail token reason r m hheld =>
      have hlease : r.isHeld m.id token = true := by
        simp [MessageRow.isHeld, hheld, hid, Message.failed]
      rw [isHeld_iff.mp hlease] at hseat
      exact .freed rfl hseat
  | @reset scanned r hunchanged =>
      rw [unchanged_seat hunchanged, hid] at hseat
      have hfrees : (Call.reset scanned).frees? =
        some (scanned.id, scanned.ownerToken, .waiting) := rfl
      exact .freed hfrees hseat
  | @poison scanned reason r hunchanged =>
      rw [unchanged_seat hunchanged, hid] at hseat
      have hfrees : (Call.poison scanned reason).frees? =
        some (scanned.id, scanned.ownerToken, .error) := rfl
      exact .freed hfrees hseat
  | requeue hrequeued hfailed =>
      obtain ⟨-, -, -, rfl⟩ := Message.requeue?_eq_some hrequeued
      exact .requeued hseat hid hfailed

theorem turn (hd : (t.seats.map (·.id)).Nodup) (c : Call) :
    Turn t.seats c (t.answer c).1 (t.answer c).2.seats := by
  have houtcome := answer_outcome t c
  revert houtcome
  generalize (t.answer c).1 = r, (t.answer c).2 = t'
  intro houtcome
  cases houtcome with
  | kept hchanged hcompleted => exact .kept hchanged hcompleted
  | jobs hjob =>
      obtain ⟨hchanged, hcompleted, -⟩ := Backend.changed?_jobCall hjob (.ok _)
      exact .kept hchanged hcompleted
  | added hrows hmade =>
      rw [seats_of hrows]
      simp only [seats, Option.getD_some, List.map_append, hmade]
      exact .added
  | claimed hrows hfirst => exact claimed_turn hrows hfirst
  | renewed hrows hheld =>
      rw [renewed_seats hrows]
      exact .renewed (held_mem hrows hheld)
  | completed hrows hheld => exact completed_turn hd hrows hheld
  | repeated hrows hr hid hcomplete => exact .repeated (mem_seats hrows hr) hid hcomplete
  | written hrows hr hid hwrites => exact written_turn hrows hr hid hwrites
  | purged hrows =>
      rw [seats_of hrows]
      apply Turn.purged
      · exact List.filter_sublist.map _
      · intro seat hseat hstatus
        obtain ⟨r, hr, rfl⟩ := List.mem_map.mp hseat
        apply List.mem_map_of_mem
        apply List.mem_filter.mpr
        refine ⟨hr, ?_⟩
        have hother : r.status ≠ "waiting" := hstatus
        simp [MessageRow.isPurgeable, hother]

end Table

/-! ## What stays and what changes -/

namespace Turn

variable {seats seats' : List Seat} {c : Call} {r : c.Reply} {lease : Lease} {id : MessageId}

theorem eq_of_id (hd : (seats.map (·.id)).Nodup) {a b : Seat} (ha : a ∈ seats) (hb : b ∈ seats)
    (hid : a.id = b.id) : a = b :=
  List.inj_on_of_nodup_map hd ha hb hid

theorem stays_or_freed (h : Turn seats c r seats') (hd : (seats.map (·.id)).Nodup) {seat : Seat}
    (hseat : seat ∈ seats) (hstatus : seat.status = "processing") :
    seat ∈ seats' ∨ ∃ id token status, c.frees? = some (id, token, status) ∧
      seat = ⟨id.text, "processing", token.map (·.token)⟩ := by
  -- a seat that is put elsewhere leaves this one alone
  have other {a : Seat} (ha : a ∈ seats) (hne : a.status ≠ "processing") {placed : Seat}
      (hid : placed.id = a.id) : seat ∈ Seat.place seats placed := by
    apply Seat.mem_place_of_ne hseat
    intro hsame
    obtain rfl := eq_of_id hd hseat ha (hsame.trans hid)
    exact hne hstatus
  cases h with
  | kept | renewed | repeated => exact .inl hseat
  | added => exact .inl (List.mem_append_left _ hseat)
  | claimed hstored hwaiting => exact .inl (other hstored (by simp [hwaiting]) rfl)
  | @freed c value id token status hfrees hheld =>
      by_cases hid : seat.id = id.text
      · exact .inr ⟨id, token, status, hfrees, eq_of_id hd hseat hheld hid⟩
      · exact .inl (Seat.mem_place_of_ne hseat hid)
  | requeued hstored hid hfailed => exact .inl (other hstored (by simp [hfailed]) hid.symm)
  | purged _ hstays =>
      apply Or.inl
      apply hstays seat hseat
      simp [hstatus]

theorem held_or_freed (h : Turn seats c r seats') (hd : (seats.map (·.id)).Nodup)
    (hheld : lease.seat ∈ seats) :
    lease.seat ∈ seats' ∨ ∃ status, c.frees? = some (lease.id, some lease.token, status) := by
  rcases h.stays_or_freed hd hheld rfl with hstays | ⟨id, token, status, hfrees, hseat⟩
  · exact .inl hstays
  · obtain ⟨hid, -, howner⟩ := Seat.mk.inj hseat
    obtain ⟨owner, rfl, htoken⟩ := Option.map_eq_some_iff.mp howner.symm
    obtain rfl := MessageId.text_injective hid
    obtain rfl : owner = lease.token := by
      cases owner
      exact congrArg Owner.mk htoken
    exact .inr ⟨status, hfrees⟩

/-- What is held after a call was held before, or the call is the claim of the lease, which handed
the message out or failed to read it. -/
theorem held_or_claimed (h : Turn seats c r seats') (hheld : lease.seat ∈ seats') :
    lease.seat ∈ seats ∨ c.claimToken? = some lease.token ∧
      (Entry.begun? ⟨c, r⟩ = some lease ∨ ∃ e, r = .error e) := by
  cases h with
  | kept | renewed | repeated => exact .inl hheld
  | added =>
      rcases List.mem_append.mp hheld with hold | hnew
      · exact .inl hold
      · cases congrArg Seat.owner (List.mem_singleton.mp hnew)
  | @claimed routes token now seat r hstored hwaiting htold =>
      rcases Seat.eq_or_mem_of_place hheld with heq | ⟨hold, -⟩
      · obtain ⟨hid, -, howner⟩ := Seat.mk.inj heq
        obtain rfl : lease.token = token := by
          obtain ⟨id, ⟨text⟩⟩ := lease
          cases token
          exact congrArg Owner.mk (Option.some.inj howner)
        refine .inr ⟨rfl, ?_⟩
        cases r with
        | error e => exact .inr ⟨e, rfl⟩
        | ok found =>
            obtain ⟨m, rfl, hm⟩ := htold found rfl
            rw [← hid, MessageId.ofText?_text] at hm
            simp [Entry.begun?, ← Option.some.inj hm]
      · exact .inl hold
  | @freed c value id token status =>
      rcases Seat.eq_or_mem_of_place hheld with heq | ⟨hold, -⟩
      · cases congrArg Seat.owner heq
      · exact .inl hold
  | requeued =>
      rcases Seat.eq_or_mem_of_place hheld with heq | ⟨hold, -⟩
      · exact absurd (congrArg Seat.status heq) (by simp [Lease.seat])
      · exact .inl hold
  | purged hpart => exact .inl (hpart.subset hheld)

/-- What is complete after a call was complete before, or the call settles the lease that it was held
under. -/
theorem complete_or_settled (h : Turn seats c r seats') {seat : Seat} (hseat : seat ∈ seats')
    (hcomplete : seat.status = "complete") :
    seat ∈ seats ∨ ∃ lease : Lease, seat.id = lease.id.text ∧ lease.seat ∈ seats ∧
      c = .complete lease.id lease.token := by
  cases h with
  | kept | renewed | repeated => exact .inl hseat
  | added =>
      rcases List.mem_append.mp hseat with hold | hnew
      · exact .inl hold
      · rw [List.mem_singleton.mp hnew] at hcomplete
        simp at hcomplete
  | claimed | requeued =>
      rcases Seat.eq_or_mem_of_place hseat with rfl | ⟨hold, -⟩
      · simp at hcomplete
      · exact .inl hold
  | @freed c value id token status hfrees hheld =>
      rcases Seat.eq_or_mem_of_place hseat with rfl | ⟨hold, -⟩
      · cases c with
        | complete id' token' =>
            obtain ⟨rfl, rfl, -⟩ : id' = id ∧ some token' = token ∧ Status.complete = status := by
              simpa [Call.frees?] using hfrees
            exact .inr ⟨⟨id', token'⟩, rfl, hheld, rfl⟩
        | fail | reset | poison =>
            simp only [Call.frees?, Option.some.injEq, Prod.mk.injEq] at hfrees
            simp [← hfrees.2.2, Status.text] at hcomplete
        | _ => cases hfrees
      · exact .inl hold
  | purged hpart => exact .inl (hpart.subset hseat)

theorem renewed_held {now : Instant} {u : Unit}
    (h : Turn seats (.heartbeat lease.id lease.token now) (.ok u) seats') : lease.seat ∈ seats := by
  cases h with
  | kept hchanged => cases hchanged
  | freed hfrees => cases hfrees
  | renewed hheld => exact hheld

/-- A completion succeeds under the lease that the message is held under, or on a complete message;
and the message is complete then. -/
theorem completed_held {u : Unit}
    (h : Turn seats (.complete lease.id lease.token) (.ok u) seats') :
    (lease.seat ∈ seats ∨ ∃ seat ∈ seats, seat.id = lease.id.text ∧ seat.status = "complete") ∧
      ∃ seat ∈ seats', seat.id = lease.id.text ∧ seat.status = "complete" := by
  cases h with
  | kept _ hcompleted => cases hcompleted
  | freed hfrees hheld =>
      obtain ⟨rfl, rfl, rfl⟩ : lease.id = _ ∧ some lease.token = _ ∧ Status.complete = _ := by
        simpa [Call.frees?] using hfrees
      exact ⟨.inl hheld, _, Seat.mem_place_self hheld rfl, rfl, rfl⟩
  | repeated hstored hid hcomplete =>
      exact ⟨.inr ⟨_, hstored, hid, hcomplete⟩, _, hstored, hid, hcomplete⟩

theorem distinct (h : Turn seats c r seats') (hd : (seats.map (·.id)).Nodup)
    (hfresh : ∀ id ∈ c.insertedId?, ∀ seat ∈ seats, seat.id ≠ id.text) :
    (seats'.map (·.id)).Nodup := by
  cases h with
  | kept | renewed | repeated => exact hd
  | @added m id stamp =>
      rw [List.map_append, List.nodup_append]
      refine ⟨hd, List.nodup_singleton _, ?_⟩
      intro a ha b hb hab
      obtain ⟨seat, hseat, rfl⟩ := List.mem_map.mp ha
      obtain rfl := List.mem_singleton.mp hb
      exact hfresh id rfl seat hseat hab
  | claimed | freed | requeued => rwa [Seat.place_ids]
  | purged hpart => exact hd.sublist (hpart.map _)

theorem origin (h : Turn seats c r seats') {seat : Seat} (hseat : seat ∈ seats') :
    (∃ a ∈ seats, a.id = seat.id) ∨ ∃ id, c.insertedId? = some id ∧ seat.id = id.text := by
  have placed {a : Seat} {id status : String} {owner : Option String} (ha : a ∈ seats)
      (hid : a.id = id) (hseat : seat ∈ Seat.place seats ⟨id, status, owner⟩) :
      ∃ a ∈ seats, a.id = seat.id := by
    rcases Seat.eq_or_mem_of_place hseat with rfl | ⟨hold, -⟩
    · exact ⟨a, ha, hid⟩
    · exact ⟨seat, hold, rfl⟩
  cases h with
  | kept | renewed | repeated => exact .inl ⟨seat, hseat, rfl⟩
  | @added m id stamp =>
      rcases List.mem_append.mp hseat with hold | hnew
      · exact .inl ⟨seat, hold, rfl⟩
      · obtain rfl := List.mem_singleton.mp hnew
        exact .inr ⟨id, rfl, rfl⟩
  | claimed hstored => exact .inl (placed hstored rfl hseat)
  | freed _ hheld => exact .inl (placed hheld rfl hseat)
  | requeued hstored hid => exact .inl (placed hstored hid hseat)
  | purged hpart => exact .inl ⟨seat, hpart.subset hseat, rfl⟩

end Turn

end WorkQueue
