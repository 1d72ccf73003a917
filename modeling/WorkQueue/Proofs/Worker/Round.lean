import Mathlib
import WorkQueue.Proofs.Lease.Grants
import WorkQueue.Worker.Process

/-! # Rounds of renewals

A round takes the leases that are registered at its start and renews them one by one, while workers
release and settle them behind its back. It is watched step by step: what it did is kept with the
state that it met, so its result can be held against the signals that it fired.
-/

namespace WorkQueue

/-- A call with the store that it met. -/
structure Moment where
  store : Backend
  call : Call

namespace Moment

def entry (x : Moment) : Entry := ⟨x.call, (x.store.answer x.call).1⟩

def after (x : Moment) : Backend := (x.store.answer x.call).2

/-- The lease was granted before the call and not after it. -/
def Ends (x : Moment) (lease : Lease) : Prop := x.store.Grants lease ∧ ¬ x.after.Grants lease

/-- The lease was taken back, the message reset or given up. -/
def TakesBack (x : Moment) (lease : Lease) : Prop := x.Ends lease ∧ x.call.snapshot?.isSome = true

/-- The lease was settled. -/
def Settles (x : Moment) (lease : Lease) : Prop := x.Ends lease ∧ x.call.settled? = some lease

end Moment

/-- Some call claimed under the token of the lease. -/
def Drawn (history : List Moment) (lease : Lease) : Prop :=
  ∃ x ∈ history, x.call.claimToken? = some lease.token

theorem Drawn.append {history : List Moment} {lease : Lease} (h : Drawn history lease)
    (more : List Moment) : Drawn (history ++ more) lease := by
  obtain ⟨x, hx, htoken⟩ := h
  exact ⟨x, List.mem_append_left _ hx, htoken⟩

namespace Backend

/-- A store after some calls: it is known what they inserted and claimed, and a lease that ended is
not granted again. -/
structure Recorded (store : Backend) (history : List Moment) : Prop where
  booked : store.Booked (history.map (·.entry))
  granted : ∀ x ∈ history, ∀ lease, x.store.Grants lease → Drawn history lease
  ended : ∀ x ∈ history, ∀ lease, x.Ends lease → ¬ store.Grants lease

variable {store : Backend} {history : List Moment} {c : Call} {lease : Lease}

theorem Recorded.start (h : store = .memory .empty ∨ store = .table .empty) :
    store.Recorded [] where
  booked := .start h
  granted := by
    intro x hx
    cases hx
  ended := by
    intro x hx
    cases hx

theorem Recorded.drawn (h : store.Recorded history) (hgranted : store.Grants lease) :
    Drawn history lease := by
  obtain ⟨e, he, htoken, -⟩ := h.booked.claimed lease hgranted
  obtain ⟨x, hx, rfl⟩ := List.mem_map.mp he
  exact ⟨x, hx, htoken⟩

theorem Recorded.lost_stays (h : store.Recorded history) (hfresh : c.Fresh (history.map (·.entry)))
    (hdrawn : Drawn history lease) (hlost : ¬ store.Grants lease) :
    ¬ (store.answer c).2.Grants lease := by
  obtain ⟨x, hx, htoken⟩ := hdrawn
  exact h.booked.lost_stays hfresh ⟨x.entry, List.mem_map_of_mem hx, htoken⟩ hlost

theorem Recorded.step (h : store.Recorded history) (hfresh : c.Fresh (history.map (·.entry))) :
    (store.answer c).2.Recorded (history ++ [⟨store, c⟩]) where
  booked := by
    rw [List.map_append]
    exact h.booked.step hfresh
  granted := by
    intro x hx lease hgranted
    rcases List.mem_append.mp hx with hx | hx
    · exact (h.granted x hx lease hgranted).append _
    · obtain rfl := List.mem_singleton.mp hx
      exact (h.drawn hgranted).append _
  ended := by
    intro x hx lease hends
    rcases List.mem_append.mp hx with hx | hx
    · exact h.lost_stays hfresh (h.granted x hx lease hends.1) (h.ended x hx lease hends)
    · obtain rfl := List.mem_singleton.mp hx
      exact hends.2

theorem Recorded.settled_or_taken (h : store.Recorded history)
    (hends : (⟨store, c⟩ : Moment).Ends lease) :
    (⟨store, c⟩ : Moment).Settles lease ∨ (⟨store, c⟩ : Moment).TakesBack lease := by
  rcases (h.booked.turn c).held_or_freed h.booked.distinct hends.1 with hheld | ⟨status, hfrees⟩
  · exact absurd hheld hends.2
  · cases c with
    | complete id token | fail id token reason =>
        simp only [Call.frees?, Option.some.injEq, Prod.mk.injEq] at hfrees
        obtain ⟨rfl, rfl, -⟩ := hfrees
        exact .inl ⟨hends, rfl⟩
    | reset | poison => exact .inr ⟨hends, rfl⟩
    | _ => cases hfrees

theorem Recorded.renewal_refused (h : store.Recorded history) (hlost : ¬ store.Grants lease)
    (now : Instant) :
    ∃ e, (store.answer (.heartbeat lease.id lease.token now)).1 = .error e := by
  have hturn := h.booked.turn (.heartbeat lease.id lease.token now)
  revert hturn
  cases (store.answer (.heartbeat lease.id lease.token now)).1 with
  | error e => exact fun _ => ⟨e, rfl⟩
  | ok u => exact fun hturn => absurd hturn.renewed_held hlost

end Backend

/-! ## What a round does -/

/-- What a round did: it changed the registry, or it made a call after some others had been made, or
its call failed on the way to the store. -/
inductive Deed where
  | updated (before after : Registry)
  | called (past : List Moment) (x : Moment)
  | failed (c : Call) (e : StoreError)

namespace Deed

/-- The signals that were fired. -/
def fired : Deed → List Nat
  | updated before after => after.fired.take (after.fired.length - before.fired.length)
  | _ => []

/-- The store failed to answer. -/
def Fault : Deed → Prop
  | updated .. => False
  | called _ x => ∃ e, x.entry.reply = .error e ∧ e.isConflict = false
  | failed .. => True

theorem fired_read (r : Registry) : (updated r r).fired = [] := by simp [fired]

theorem fired_cancel (r : Registry) (lease : Lease) :
    (updated r (r.cancel lease)).fired = (r.signal? lease).toList := by
  simp [fired, Registry.cancel]

end Deed

/-- A round: what is left of it to do, what it did, and the readings of the clock that it took. -/
structure Round where
  rest : Procedure Registry Nat
  deeds : List Deed
  readings : List Instant

namespace Round

/-- The signals that were fired by some deeds. -/
def signals (deeds : List Deed) : List Nat := deeds.flatMap Deed.fired

theorem signals_cons (d : Deed) (deeds : List Deed) :
    signals (d :: deeds) = d.fired ++ signals deeds := List.flatMap_cons

theorem signals_append (deeds : List Deed) (d : Deed) :
    signals (deeds ++ [d]) = signals deeds ++ d.fired := by
  rw [signals, List.flatMap_append, List.flatMap_singleton]
  rfl

def fired (r : Round) : List Nat := signals r.deeds

/-- The round met no error of the store. -/
def Faultless (r : Round) : Prop := ∀ d ∈ r.deeds, ¬ d.Fault

/-- The renewal of a lease by a call in some store. -/
def renewal (store : Backend) (lease : Lease) (now : Instant) : Moment :=
  ⟨store, .heartbeat lease.id lease.token now⟩

/-- The round renewed a lease, and if the renewal was refused it cancelled the lease next. -/
inductive Visited (lease : Lease) (deeds : List Deed) : Prop
  | failed {now : Instant} {e : StoreError}
      (made : .failed (.heartbeat lease.id lease.token now) e ∈ deeds)
  | called {earlier later : List Deed} {past : List Moment} {store : Backend} {now : Instant}
      (made : deeds = earlier ++ .called past (renewal store lease now) :: later)
      (refused : ∀ e, (renewal store lease now).entry.reply = .error e → e.isConflict = true →
        ∃ before more, later = .updated before (before.cancel lease) :: more)

theorem Visited.append {lease : Lease} {deeds : List Deed} (h : Visited lease deeds)
    (more : List Deed) : Visited lease (deeds ++ more) := by
  cases h with
  | failed made => exact .failed (List.mem_append_left _ made)
  | @called earlier later past store now made refused =>
      refine @Visited.called _ _ earlier (later ++ more) past store now ?_ ?_
      · rw [made, List.append_assoc, List.cons_append]
      · intro e hreply hconflict
        obtain ⟨before, others, rfl⟩ := refused e hreply hconflict
        exact ⟨before, others ++ more, rfl⟩

/-- How a round goes on after the renewal of a lease. -/
def resume (now : Instant) (lease : Lease) (todo : List Lease) (lost : Nat) :
    Except StoreError Unit → Procedure Registry Nat
  | .ok _ => Monitor.renewEach now todo lost
  | .error e =>
    if e.isConflict then
      .update (·.cancel lease) fun before =>
        Monitor.renewEach now todo (if before.holds lease then lost + 1 else lost)
    else Monitor.renewEach now todo lost

theorem renewEach_cons (now : Instant) (lease : Lease) (todo : List Lease) (lost : Nat) :
    Monitor.renewEach now (lease :: todo) lost =
      .call (.heartbeat lease.id lease.token now) (resume now lease todo lost) := by
  apply congrArg (Procedure.call _)
  funext reply
  cases reply with
  | ok u => rfl
  | error e => cases e <;> rfl

theorem renewEach_inj {now now' : Instant} {todo todo' : List Lease} {lost lost' : Nat}
    (h : Monitor.renewEach now todo lost = Monitor.renewEach now' todo' lost') :
    todo = todo' ∧ lost = lost' ∧ (todo ≠ [] → now = now') := by
  induction todo generalizing todo' with
  | nil =>
      cases todo' with
      | nil => exact ⟨rfl, Procedure.done.inj h, fun hne => absurd rfl hne⟩
      | cons lease' todo' =>
          rw [renewEach_cons] at h
          cases h
  | cons lease todo ih =>
      cases todo' with
      | nil =>
          rw [renewEach_cons] at h
          cases h
      | cons lease' todo' =>
          simp only [renewEach_cons, Procedure.call.injEq, Call.heartbeat.injEq] at h
          obtain ⟨⟨hid, htoken, rfl⟩, hnext⟩ := h
          obtain rfl : lease = lease' := by
            cases lease
            cases lease'
            simp_all
          have hrest := congrFun (eq_of_heq hnext) (.ok ())
          obtain ⟨rfl, rfl, -⟩ := ih hrest
          exact ⟨rfl, rfl, fun _ => rfl⟩

/-- What is known of a round when some calls were made: the leases of its snapshot are visited or
still to come. A lease that it is about to cancel is not granted, which stays so because the token of
the lease is drawn. -/
inductive Progress (store : Backend) (history : List Moment) (readings : List Instant) :
    Procedure Registry Nat → List Deed → Prop
  | begun {now : Instant} (read : now ∈ readings) :
      Progress store history readings (Monitor.renewLocal now) []
  | visiting {now : Instant} {snapshot : Registry} {deeds : List Deed} {todo : List Lease}
      (read : now ∈ readings) (known : ∀ lease ∈ todo, Drawn history lease)
      (all : ∀ lease ∈ snapshot.leases, lease ∈ todo ∨ Visited lease deeds) :
      Progress store history readings (Monitor.renewEach now todo (signals deeds).length)
        (.updated snapshot snapshot :: deeds)
  | cancelling {now : Instant} {snapshot : Registry} {deeds : List Deed} {todo : List Lease}
      {lease : Lease} {past : List Moment} {met : Backend}
      (read : now ∈ readings) (known : ∀ lease ∈ todo, Drawn history lease)
      (all : ∀ l ∈ snapshot.leases, l = lease ∨ l ∈ todo ∨ Visited l deeds)
      (drawn : Drawn history lease) (lost : ¬ store.Grants lease) :
      Progress store history readings
        (.update (·.cancel lease) fun before => Monitor.renewEach now todo
          (if before.holds lease then (signals deeds).length + 1 else (signals deeds).length))
        (.updated snapshot snapshot :: (deeds ++ [.called past (renewal met lease now)]))

namespace Progress

variable {store : Backend} {history : List Moment} {deeds : List Deed}
  {readings : List Instant}

/-- What a round knows stays true while others call the store. -/
theorem after {p : Procedure Registry Nat} (h : Progress store history readings p deeds)
    (hrecorded : store.Recorded history) {c : Call} (hfresh : c.Fresh (history.map (·.entry))) :
    Progress (store.answer c).2 (history ++ [⟨store, c⟩]) readings p deeds := by
  cases h with
  | begun read => exact .begun read
  | visiting read known all =>
      apply Progress.visiting read _ all
      intro lease hlease
      exact (known lease hlease).append _
  | cancelling read known all drawn lost =>
      apply Progress.cancelling read _ all (drawn.append _)
      · exact hrecorded.lost_stays hfresh drawn lost
      · intro lease hlease
        exact (known lease hlease).append _

/-- A round changes the registry by reading it, or by cancelling a lease that is not granted. -/
theorem updates {f : Registry → Registry} {next : Registry → Procedure Registry Nat}
    (h : Progress store history readings (.update f next) deeds) :
    f = id ∨ ∃ lease, f = (·.cancel lease) ∧ ¬ store.Grants lease := by
  generalize hp : Procedure.update f next = p at h
  cases h with
  | begun => exact .inl (Procedure.update.inj hp).1
  | @visiting now snapshot deeds todo =>
      cases todo with
      | nil => cases hp
      | cons lease todo =>
          rw [renewEach_cons] at hp
          cases hp
  | cancelling read known all drawn lost => exact .inr ⟨_, (Procedure.update.inj hp).1, lost⟩

theorem renewing {now : Instant} {todo : List Lease} {lost : Nat}
    (h : Progress store history readings (Monitor.renewEach now todo lost) deeds) :
    ∃ snapshot later, deeds = .updated snapshot snapshot :: later ∧
      lost = (signals later).length ∧ (todo ≠ [] → now ∈ readings) ∧
      (∀ lease ∈ todo, Drawn history lease) ∧
      ∀ lease ∈ snapshot.leases, lease ∈ todo ∨ Visited lease later := by
  -- what changes the registry next is not about to renew
  have other {f : Registry → Registry} {next : Registry → Procedure Registry Nat}
      (hp : Monitor.renewEach now todo lost = .update f next) : False := by
    cases todo with
    | nil => cases hp
    | cons lease todo =>
        rw [renewEach_cons] at hp
        cases hp
  generalize hp : Monitor.renewEach now todo lost = p at h
  cases h with
  | begun => exact (other hp).elim
  | cancelling => exact (other hp).elim
  | visiting read known all =>
      obtain ⟨rfl, rfl, hnow⟩ := renewEach_inj hp
      refine ⟨_, _, rfl, rfl, ?_, known, all⟩
      intro hne
      rwa [hnow hne]

/-- The leases that are left are renewed in any order, and at any reading of the clock. -/
theorem reread {now now' : Instant} {todo todo' : List Lease} {lost : Nat}
    (h : Progress store history readings (Monitor.renewEach now todo lost) deeds)
    (hperm : todo'.Perm todo) :
    Progress store history (now' :: readings) (Monitor.renewEach now' todo' lost) deeds := by
  obtain ⟨snapshot, later, rfl, rfl, -, known, all⟩ := h.renewing
  apply Progress.visiting List.mem_cons_self
  · intro lease hlease
    exact known lease (hperm.subset hlease)
  · intro lease hlease
    apply (all lease hlease).imp_left
    intro hleft
    exact hperm.symm.subset hleft

theorem update {f : Registry → Registry} {next : Registry → Procedure Registry Nat}
    (h : Progress store history readings (.update f next) deeds) {registry : Registry}
    (hdrawn : ∀ lease ∈ registry.leases, Drawn history lease) :
    Progress store history readings (next registry)
      (deeds ++ [.updated registry (f registry)]) := by
  generalize hp : Procedure.update f next = p at h
  cases h with
  | begun read =>
      obtain ⟨rfl, rfl⟩ := Procedure.update.inj hp
      have hall : ∀ lease ∈ registry.leases, lease ∈ registry.leases ∨ Visited lease [] := by
        intro lease hlease
        exact .inl hlease
      exact .visiting read hdrawn hall
  | @visiting now snapshot later todo =>
      cases todo with
      | nil => cases hp
      | cons lease todo =>
          rw [renewEach_cons] at hp
          cases hp
  | @cancelling now snapshot later todo lease past met read known all =>
      obtain ⟨rfl, rfl⟩ := Procedure.update.inj hp
      let renewed : Deed := .called past (renewal met lease now)
      let cancelled : Deed := .updated registry (registry.cancel lease)
      have hcount : (if registry.holds lease then (signals later).length + 1
          else (signals later).length) = (signals (later ++ [renewed] ++ [cancelled])).length := by
        rw [signals_append, signals_append, Deed.fired_cancel, Registry.holds]
        cases registry.signal? lease <;> simp [renewed, Deed.fired]
      have hall : ∀ l ∈ snapshot.leases,
          l ∈ todo ∨ Visited l (later ++ [renewed] ++ [cancelled]) := by
        intro l hl
        rcases all l hl with rfl | hleft | hvisited
        · refine .inr (.called (List.append_assoc later _ _) ?_)
          intro e _ _
          exact ⟨registry, [], rfl⟩
        · exact .inl hleft
        · exact .inr ((hvisited.append _).append _)
      have hprogress : Progress store history readings _ _ := .visiting read known hall
      rw [← hcount] at hprogress
      exact hprogress

theorem visit {now : Instant} {lease : Lease} {todo : List Lease} {lost : Nat} {d : Deed}
    (h : Progress store history readings (Monitor.renewEach now (lease :: todo) lost) deeds)
    (hnone : d.fired = []) (hvisited : ∀ later, Visited lease (later ++ [d])) :
    Progress store history readings (Monitor.renewEach now todo lost) (deeds ++ [d]) := by
  obtain ⟨snapshot, later, rfl, rfl, hread, known, all⟩ := h.renewing
  have hknown : ∀ l ∈ todo, Drawn history l := by
    intro l hl
    exact known l (List.mem_cons_of_mem _ hl)
  have hall : ∀ l ∈ snapshot.leases, l ∈ todo ∨ Visited l (later ++ [d]) := by
    intro l hl
    rcases all l hl with hleft | hbefore
    · rcases List.mem_cons.mp hleft with rfl | hleft
      · exact .inr (hvisited later)
      · exact .inl hleft
    · exact .inr (hbefore.append _)
  have hprogress : Progress store history readings _ _ := .visiting (hread nofun) hknown hall
  rw [signals_append, hnone, List.append_nil] at hprogress
  exact hprogress

theorem refuse {now : Instant} {lease : Lease} {todo : List Lease} {lost : Nat}
    (h : Progress store history readings (Monitor.renewEach now (lease :: todo) lost) deeds)
    (hlost : ¬ store.Grants lease) :
    Progress store history readings
      (.update (·.cancel lease) fun before =>
        Monitor.renewEach now todo (if before.holds lease then lost + 1 else lost))
      (deeds ++ [.called history (renewal store lease now)]) := by
  obtain ⟨snapshot, later, rfl, rfl, hread, known, all⟩ := h.renewing
  apply Progress.cancelling (hread nofun)
  · intro l hl
    exact known l (List.mem_cons_of_mem _ hl)
  · intro l hl
    rcases all l hl with hleft | hvisited
    · exact (List.mem_cons.mp hleft).imp_right .inl
    · exact .inr (.inr hvisited)
  · exact known lease List.mem_cons_self
  · exact hlost

theorem calls {c : Call} {next : c.Reply → Procedure Registry Nat}
    (h : Progress store history readings (.call c next) deeds) :
    ∃ now ∈ readings, ∃ lease todo lost,
      Procedure.call c next = Monitor.renewEach now (lease :: todo) lost := by
  generalize hp : Procedure.call c next = p at h
  cases h with
  | begun => cases hp
  | cancelling => cases hp
  | @visiting now snapshot later todo read =>
      cases todo with
      | nil => cases hp
      | cons lease todo => exact ⟨now, read, lease, todo, _, rfl⟩

theorem call {c : Call} {next : c.Reply → Procedure Registry Nat}
    (h : Progress store history readings (.call c next) deeds)
    (hrecorded : store.Recorded history) :
    Progress store history readings (next (store.answer c).1)
      (deeds ++ [.called history ⟨store, c⟩]) := by
  obtain ⟨now, -, lease, todo, lost, hp⟩ := h.calls
  rw [hp] at h
  rw [renewEach_cons] at hp
  cases hp
  cases hreply : (store.answer (.heartbeat lease.id lease.token now)).1 with
  | ok u =>
      apply h.visit rfl
      intro later
      refine .called rfl ?_
      intro e he
      cases hreply.symm.trans he
  | error e =>
      cases hconflict : e.isConflict with
      | false =>
          simp only [resume, hconflict]
          apply h.visit rfl
          intro later
          refine .called rfl ?_
          intro e' he' hconflict'
          cases hreply.symm.trans he'
          cases hconflict.symm.trans hconflict'
      | true =>
          simp only [resume, hconflict]
          apply h.refuse
          intro hgranted
          have hok := ((hrecorded.booked.granted hgranted).2 now).1
          cases hok.symm.trans hreply

theorem fail {c : Call} {next : c.Reply → Procedure Registry Nat} {e : StoreError}
    (h : Progress store history readings (.call c next) deeds) (hfault : e.isConflict = false) :
    Progress store history readings (next (.error e)) (deeds ++ [.failed c e]) := by
  obtain ⟨now, -, lease, todo, lost, hp⟩ := h.calls
  rw [hp] at h
  rw [renewEach_cons] at hp
  cases hp
  simp only [resume, hfault]
  apply h.visit rfl
  intro later
  exact .failed (List.mem_append_right _ (List.mem_singleton_self _))

end Progress

end Round

end WorkQueue
