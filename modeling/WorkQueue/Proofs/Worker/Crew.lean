import Mathlib
import WorkQueue.Proofs.Lease.Signals
import WorkQueue.Proofs.Worker.Round

/-! # A crew at work

The workers of a process share a store and a registry with the rounds that renew their leases. Each
worker and each round is carried out step by step, and the steps come in any order, with calls of
other processes and of recovery passes between them.
-/

namespace WorkQueue

/-- How far the handling of a message is. -/
inductive Phase where
  /-- No worker of the crew claimed it. -/
  | away
  | claimed
  /-- The lease is registered, and the handler runs. -/
  | handling (signal : Nat)
  /-- The handler ended or was left; this is still to do. -/
  | finishing (signal : Nat) (rest : Procedure Registry (Except QueueError Unit))

namespace Phase

def signal? : Phase → Option Nat
  | handling signal | finishing signal _ => some signal
  | _ => none

/-- The worker has not settled its lease, and may do so. -/
def Open : Phase → Prop
  | away | finishing _ (.done _) => False
  | _ => True

/-- The worker registered its lease and did not release it. -/
def Registered (lease : Lease) (signal : Nat) (phase : Phase) : Prop :=
  phase = .handling signal ∨ ∃ outcome, phase = .finishing signal (Worker.finish lease outcome)

theorem Registered.open {lease : Lease} {signal : Nat} {phase : Phase}
    (h : phase.Registered lease signal) : phase.Open ∧ phase.signal? = some signal := by
  rcases h with rfl | ⟨outcome, rfl⟩
  · exact ⟨trivial, rfl⟩
  · exact ⟨trivial, rfl⟩

end Phase

/-- The crew with its store. A message that is handled is named by its lease. -/
structure Crew where
  store : Backend
  clock : Instant
  registry : Registry
  hands : Lease → Phase
  rounds : List Round
  history : List Moment

namespace Crew

/-- No call of the history that settles the lease changed the store. -/
def Unsettled (w : Crew) (lease : Lease) : Prop :=
  ∀ x ∈ w.history, x.call.settled? = some lease → x.after = x.store

/-- Some call of the history took the lease back. -/
def TakenBack (w : Crew) (lease : Lease) : Prop := ∃ x ∈ w.history, x.TakesBack lease

/-- The store answers a call. -/
def after (w : Crew) (c : Call) : Crew :=
  { w with store := (w.store.answer c).2, history := w.history ++ [⟨w.store, c⟩] }

/-- The handling of a message goes on. -/
def put (w : Crew) (lease : Lease) (phase : Phase) : Crew :=
  { w with hands := Function.update w.hands lease phase }

/-- One step of the crew or of somebody else. Tokens and identifiers are fresh, and a lease of the
crew is settled by its own worker only. -/
inductive Step : Crew → Crew → Prop
  | tick {w : Crew} (now : Instant) : Step w { w with clock := now }
  /-- A worker claims a message. -/
  | claim {w : Crew} {routes : List String} {token : Owner} {now : Instant} {lease : Lease}
      (fresh : (Call.claim routes token now).Fresh (w.history.map (·.entry)))
      (begun : (Moment.mk w.store (.claim routes token now)).entry.begun? = some lease) :
      Step w ((w.after (.claim routes token now)).put lease .claimed)
  /-- A recovery pass, another process or anybody else makes a call. -/
  | elsewhere {w : Crew} {c : Call} (fresh : c.Fresh (w.history.map (·.entry)))
      (other : ∀ lease, c.settled? = some lease → w.hands lease = .away) :
      Step w (w.after c)
  | register {w : Crew} {lease : Lease} {signal : Nat} {store : Backend} {registry : Registry}
      (hand : w.hands lease = .claimed)
      (ran : (Worker.register lease).run Backend.answer w.store w.registry =
        (signal, store, registry)) :
      Step w { w.put lease (.handling signal) with store, registry }
  /-- The handler ends, or it is left after its signal was fired. -/
  | leave {w : Crew} {lease : Lease} {signal : Nat} {outcome : Outcome}
      (hand : w.hands lease = .handling signal)
      (abandoned : outcome = .abandoned → w.registry.isFired signal = true) :
      Step w (w.put lease (.finishing signal (Worker.finish lease outcome)))
  | release {w : Crew} {lease : Lease} {signal : Nat} {f : Registry → Registry}
      {next : Registry → Procedure Registry (Except QueueError Unit)}
      (hand : w.hands lease = .finishing signal (.update f next)) :
      Step w { w.put lease (.finishing signal (next w.registry)) with registry := f w.registry }
  | settle {w : Crew} {lease : Lease} {signal : Nat} {c : Call}
      {next : c.Reply → Procedure Registry (Except QueueError Unit)}
      (hand : w.hands lease = .finishing signal (.call c next)) :
      Step w ((w.put lease (.finishing signal (next (w.store.answer c).1))).after c)
  /-- The store fails to answer. -/
  | settleFails {w : Crew} {lease : Lease} {signal : Nat} {c : Call} {e : StoreError}
      {next : c.Reply → Procedure Registry (Except QueueError Unit)}
      (hand : w.hands lease = .finishing signal (.call c next)) (fault : e.isConflict = false) :
      Step w (w.put lease (.finishing signal (next (.error e))))
  /-- A round begins. -/
  | begin {w : Crew} :
      Step w { w with rounds := w.rounds ++ [⟨Monitor.renewLocal w.clock, [], [w.clock]⟩] }
  | update {w : Crew} {before after : List Round} {deeds : List Deed} {readings : List Instant}
      {f : Registry → Registry} {next : Registry → Procedure Registry Nat}
      (round : w.rounds = before ++ ⟨.update f next, deeds, readings⟩ :: after) :
      Step w { w with
        registry := f w.registry
        rounds := before ++ ⟨next w.registry, deeds ++ [.updated w.registry (f w.registry)],
          readings⟩ :: after }
  | renew {w : Crew} {before after : List Round} {deeds : List Deed} {readings : List Instant}
      {c : Call} {next : c.Reply → Procedure Registry Nat}
      (round : w.rounds = before ++ ⟨.call c next, deeds, readings⟩ :: after) :
      Step w { w.after c with
        rounds := before ++ ⟨next (w.store.answer c).1,
          deeds ++ [.called w.history ⟨w.store, c⟩], readings⟩ :: after }
  /-- The store fails to answer. -/
  | renewFails {w : Crew} {before after : List Round} {deeds : List Deed}
      {readings : List Instant} {c : Call} {next : c.Reply → Procedure Registry Nat}
      {e : StoreError} (round : w.rounds = before ++ ⟨.call c next, deeds, readings⟩ :: after)
      (fault : e.isConflict = false) :
      Step w { w with
        rounds := before ++ ⟨next (.error e), deeds ++ [.failed c e], readings⟩ :: after }
  /-- The leases of a snapshot come in any order, and the clock is read for each of them. -/
  | reread {w : Crew} {before after : List Round} {deeds : List Deed} {readings : List Instant}
      {now : Instant} {todo todo' : List Lease} {lost : Nat}
      (round : w.rounds = before ++ ⟨Monitor.renewEach now todo lost, deeds, readings⟩ :: after)
      (order : todo'.Perm todo) :
      Step w { w with
        rounds := before ++ ⟨Monitor.renewEach w.clock todo' lost, deeds, w.clock :: readings⟩ ::
          after }

/-- A crew with nothing to do. -/
def idle (store : Backend) (clock : Instant) : Crew :=
  ⟨store, clock, .empty, fun _ => .away, [], []⟩

inductive Reachable : Crew → Prop
  | memory (clock : Instant) : Reachable (idle (.memory .empty) clock)
  | table (clock : Instant) : Reachable (idle (.table .empty) clock)
  | step {w w' : Crew} (reached : Reachable w) (step : Step w w') : Reachable w'

end Crew

/-! ## What is known of a crew -/

/-- What is left to a worker after the handler: to release its lease and settle it. -/
inductive Worker.Finishing (lease : Lease) : Procedure Registry (Except QueueError Unit) → Prop
  | releasing (outcome : Outcome) : Finishing lease (finish lease outcome)
  | settling {c : Call} {next : c.Reply → Procedure Registry (Except QueueError Unit)}
      (own : c.settled? = some lease) (last : ∀ reply, ∃ result, next reply = .done result) :
      Finishing lease (.call c next)
  | settled (result : Except QueueError Unit) : Finishing lease (.done result)

namespace Worker.Finishing

variable {lease : Lease}

theorem release {f : Registry → Registry}
    {next : Registry → Procedure Registry (Except QueueError Unit)}
    (h : Finishing lease (.update f next)) :
    f = (·.release lease) ∧ ∀ registry, Finishing lease (next registry) := by
  generalize hp : Procedure.update f next = p at h
  cases h with
  | settling => cases hp
  | settled => cases hp
  | releasing outcome =>
      obtain ⟨rfl, rfl⟩ := Procedure.update.inj hp
      refine ⟨rfl, ?_⟩
      intro registry
      cases outcome with
      | succeeded =>
          apply settling rfl
          intro reply
          exact ⟨_, rfl⟩
      | failed reason =>
          apply settling rfl
          intro reply
          exact ⟨_, rfl⟩
      | abandoned => exact .settled (.ok ())

theorem settle {c : Call} {next : c.Reply → Procedure Registry (Except QueueError Unit)}
    (h : Finishing lease (.call c next)) :
    c.settled? = some lease ∧ ∀ reply, ∃ result, next reply = .done result := by
  generalize hp : Procedure.call c next = p at h
  cases h with
  | releasing => cases hp
  | settled => cases hp
  | settling own last =>
      cases hp
      exact ⟨own, last⟩

end Worker.Finishing

/-- A call that a round made is one of the history, and it has a reading of the clock that the round
took. -/
def Deed.Told (history : List Moment) (readings : List Instant) : Deed → Prop
  | .called past x => x.store.Recorded past ∧ past ++ [x] <+: history ∧
      ∀ t ∈ x.call.reading?, t ∈ readings
  | _ => True

theorem Deed.Told.later {history more : List Moment} {readings again : List Instant} {d : Deed}
    (h : d.Told history readings) (hmore : history <+: more) (hagain : readings ⊆ again) :
    d.Told more again := by
  cases d with
  | called past x =>
      obtain ⟨hrecorded, hmade, hread⟩ := h
      refine ⟨hrecorded, hmade.trans hmore, ?_⟩
      intro t ht
      exact hagain (hread t ht)
  | _ => trivial

namespace Crew

/-- What is known of a round of a crew. -/
structure Knows (w : Crew) (round : Round) : Prop where
  progress : Round.Progress w.store w.history round.readings round.rest round.deeds
  told : ∀ d ∈ round.deeds, d.Told w.history round.readings
  once : round.fired.Nodup
  fired : round.fired ⊆ w.registry.fired

/-- What is known of the handling of a message. A worker that may settle its lease did not do so
yet, and if it lost the lease it was taken back; and a signal is fired only for such a worker. -/
structure Handles (w : Crew) (lease : Lease) (phase : Phase) : Prop where
  drawn : phase ≠ .away → Drawn w.history lease
  made : ∀ s, phase.signal? = some s → s < w.registry.signals
  registered : ∀ s, (lease, s) ∈ w.registry.entries → phase.Registered lease s
  finishing : ∀ s rest, phase = .finishing s rest → Worker.Finishing lease rest
  unsettled : phase.Open → w.Unsettled lease ∧ (w.store.Grants lease ∨ w.TakenBack lease)
  cancelled : ∀ s, phase.signal? = some s → s ∈ w.registry.fired →
    w.Unsettled lease ∧ w.TakenBack lease

structure Sound (w : Crew) : Prop where
  recorded : w.store.Recorded w.history
  signals : w.registry.Sound
  hands : ∀ lease, w.Handles lease (w.hands lease)
  own : ∀ lease other s, (w.hands lease).signal? = some s → (w.hands other).signal? = some s →
    lease = other
  fired : ∀ s ∈ w.registry.fired, ∃ lease, (w.hands lease).signal? = some s
  rounds : ∀ round ∈ w.rounds, w.Knows round

variable {w : Crew} {c : Call} {lease : Lease}

theorem put_self (w : Crew) (lease : Lease) (phase : Phase) :
    (w.put lease phase).hands lease = phase :=
  Function.update_self ..

theorem put_of_ne (w : Crew) (phase : Phase) {other : Lease} (h : other ≠ lease) :
    (w.put lease phase).hands other = w.hands other :=
  Function.update_of_ne h ..

theorem put_signal {phase : Phase} (h : phase.signal? = (w.hands lease).signal?) (l : Lease) :
    ((w.put lease phase).hands l).signal? = (w.hands l).signal? := by
  by_cases hl : l = lease
  · rw [hl, put_self, h]
  · rw [put_of_ne w phase hl]

theorem Handles.away (hnone : ∀ s, (lease, s) ∉ w.registry.entries) : w.Handles lease .away where
  drawn := by
    intro haway
    exact absurd rfl haway
  made := by
    intro s hsignal
    cases hsignal
  registered := by
    intro s hentry
    exact absurd hentry (hnone s)
  finishing := by
    intro s rest hfinishing
    cases hfinishing
  unsettled := by
    intro hopen
    exact hopen.elim
  cancelled := by
    intro s hsignal
    cases hsignal

theorem Sound.idle {store : Backend} (h : store = .memory .empty ∨ store = .table .empty)
    (clock : Instant) : (idle store clock).Sound where
  recorded := .start h
  signals := .empty
  hands := by
    intro lease
    apply Handles.away
    intro s
    exact List.not_mem_nil
  own := by
    intro lease other s hsignal
    cases hsignal
  fired := by
    intro s hs
    cases hs
  rounds := by
    intro round hround
    cases hround

/-! ## Calls -/

theorem TakenBack.after (h : w.TakenBack lease) (c : Call) : (w.after c).TakenBack lease := by
  obtain ⟨x, hx, htaken⟩ := h
  exact ⟨x, List.mem_append_left _ hx, htaken⟩

theorem Unsettled.after (h : w.Unsettled lease)
    (hcall : c.settled? = some lease → (w.store.answer c).2 = w.store) :
    (w.after c).Unsettled lease := by
  intro x hx hsettled
  rcases List.mem_append.mp hx with hx | hx
  · exact h x hx hsettled
  · obtain rfl := List.mem_singleton.mp hx
    exact hcall hsettled

theorem Sound.not_granted (h : w.Sound) (htaken : w.TakenBack lease) : ¬ w.store.Grants lease := by
  obtain ⟨x, hx, hends, -⟩ := htaken
  exact h.recorded.ended x hx lease hends

/-- A lease that is not settled stays granted until it is taken back. -/
theorem Sound.granted_or_taken (h : w.Sound) (hcall : c.settled? ≠ some lease)
    (hlease : w.store.Grants lease ∨ w.TakenBack lease) :
    (w.after c).store.Grants lease ∨ (w.after c).TakenBack lease := by
  rcases hlease with hgranted | htaken
  · by_cases hnow : (w.after c).store.Grants lease
    · exact .inl hnow
    · rcases h.recorded.settled_or_taken ⟨hgranted, hnow⟩ with hsettles | htakes
      · exact absurd hsettles.2 hcall
      · exact .inr ⟨_, List.mem_append_right _ (List.mem_singleton_self _), htakes⟩
  · exact .inr (htaken.after c)

theorem Sound.stays_unsettled (h : w.Sound) (hunsettled : w.Unsettled lease)
    (htaken : w.TakenBack lease) (c : Call) : (w.after c).Unsettled lease := by
  apply hunsettled.after
  intro hsettled
  exact Backend.settle_lost (h.not_granted htaken) hsettled

theorem Knows.after {round : Round} (h : w.Knows round) (hrecorded : w.store.Recorded w.history)
    (hfresh : c.Fresh (w.history.map (·.entry))) : (w.after c).Knows round where
  progress := h.progress.after hrecorded hfresh
  told := by
    intro d hd
    exact (h.told d hd).later (List.prefix_append _ _) (List.Subset.refl _)
  once := h.once
  fired := h.fired

/-- A call leaves alone what is known of a worker, if it settles no lease that is still open. -/
theorem Sound.handles_after (h : w.Sound) {phase : Phase} (hhand : w.Handles lease phase)
    (hother : c.settled? = some lease → ¬ phase.Open) : (w.after c).Handles lease phase where
  drawn := by
    intro hphase
    exact (hhand.drawn hphase).append _
  made := hhand.made
  registered := hhand.registered
  finishing := hhand.finishing
  unsettled := by
    intro hopen
    obtain ⟨hunsettled, hlease⟩ := hhand.unsettled hopen
    have hcall : c.settled? ≠ some lease := by
      intro hsettled
      exact hother hsettled hopen
    refine ⟨?_, h.granted_or_taken hcall hlease⟩
    apply hunsettled.after
    intro hsettled
    exact absurd hsettled hcall
  cancelled := by
    intro s hsignal hfired
    obtain ⟨hunsettled, htaken⟩ := hhand.cancelled s hsignal hfired
    exact ⟨h.stays_unsettled hunsettled htaken c, htaken.after c⟩

theorem Sound.after (h : w.Sound) (hfresh : c.Fresh (w.history.map (·.entry)))
    (hother : ∀ lease, c.settled? = some lease → ¬ (w.hands lease).Open) : (w.after c).Sound where
  recorded := h.recorded.step hfresh
  signals := h.signals
  hands := by
    intro lease
    exact h.handles_after (h.hands lease) (hother lease)
  own := h.own
  fired := h.fired
  rounds := by
    intro round hround
    exact (h.rounds round hround).after h.recorded hfresh

/-! ## Workers -/

theorem Sound.put (h : w.Sound) {phase : Phase} (hphase : w.Handles lease phase)
    (hsignal : phase.signal? = (w.hands lease).signal?) : (w.put lease phase).Sound where
  recorded := h.recorded
  signals := h.signals
  hands := by
    intro l
    by_cases hl : l = lease
    · subst hl
      rw [put_self]
      exact { hphase with }
    · rw [put_of_ne w phase hl]
      exact { h.hands l with }
  own := by
    intro l other s hs hother
    rw [put_signal hsignal] at hs hother
    exact h.own l other s hs hother
  fired := by
    intro s hs
    obtain ⟨l, hl⟩ := h.fired s hs
    exact ⟨l, (put_signal hsignal l).trans hl⟩
  rounds := by
    intro round hround
    exact { h.rounds round hround with }

/-- A worker registers its lease with a new signal. -/
def enlist (w : Crew) (lease : Lease) : Crew :=
  { w.put lease (.handling w.registry.signals) with registry := w.registry.register lease }

theorem Sound.enlisted (h : w.Sound) (hclaimed : w.hands lease = .claimed) :
    (w.enlist lease).Handles lease (.handling w.registry.signals) := by
  have hhand := h.hands lease
  rw [hclaimed] at hhand
  refine { hhand with drawn := ?_, made := ?_, registered := ?_, finishing := ?_, cancelled := ?_ }
  · intro _
    exact hhand.drawn nofun
  · intro s hs
    obtain rfl := Option.some.inj hs
    exact Nat.lt_succ_self _
  · intro s hentry
    rcases Registry.mem_register.mp hentry with ⟨hne, -⟩ | ⟨-, rfl⟩
    · exact absurd rfl hne
    · exact .inl rfl
  · intro s rest hfinishing
    cases hfinishing
  · intro s hs hfired
    obtain rfl := Option.some.inj hs
    exact absurd (h.signals.made _ (List.mem_append_right _ hfired)) (Nat.lt_irrefl _)

theorem Handles.enlist {other : Lease} {phase : Phase} (h : w.Handles other phase)
    (hne : other ≠ lease) : (w.enlist lease).Handles other phase := by
  refine { h with made := ?_, registered := ?_ }
  · intro s hs
    exact Nat.lt_succ_of_lt (h.made s hs)
  · intro s hentry
    rcases Registry.mem_register.mp hentry with ⟨-, hentry⟩ | ⟨heq, -⟩
    · exact h.registered s hentry
    · exact absurd heq hne

theorem Sound.enlist_own (h : w.Sound) {l other : Lease} {s : Nat}
    (hs : ((w.enlist lease).hands l).signal? = some s)
    (hother : ((w.enlist lease).hands other).signal? = some s) : l = other := by
  have hold {l : Lease} (hl : l ≠ lease) (hs : ((w.enlist lease).hands l).signal? = some s) :
      (w.hands l).signal? = some s ∧ s ≠ w.registry.signals := by
    rw [enlist, put_of_ne w _ hl] at hs
    exact ⟨hs, Nat.ne_of_lt ((h.hands l).made s hs)⟩
  have hnew {l : Lease} (hl : l = lease) (hs : ((w.enlist lease).hands l).signal? = some s) :
      s = w.registry.signals := by
    rw [hl, enlist, put_self] at hs
    exact (Option.some.inj hs).symm
  by_cases hl : l = lease
  · by_cases ho : other = lease
    · rw [hl, ho]
    · exact absurd (hnew hl hs) (hold ho hother).2
  · by_cases ho : other = lease
    · exact absurd (hnew ho hother) (hold hl hs).2
    · exact h.own l other s (hold hl hs).1 (hold ho hother).1

theorem Sound.register (h : w.Sound) (hclaimed : w.hands lease = .claimed) :
    (w.enlist lease).Sound where
  recorded := h.recorded
  signals := h.signals.register lease
  hands := by
    intro l
    by_cases hl : l = lease
    · subst hl
      rw [enlist, put_self]
      exact h.enlisted hclaimed
    · rw [enlist, put_of_ne w _ hl]
      exact (h.hands l).enlist hl
  own := by
    intro l other s hs hother
    exact h.enlist_own hs hother
  fired := by
    intro s hs
    obtain ⟨l, hsignal⟩ := h.fired s hs
    refine ⟨l, ?_⟩
    have hl : l ≠ lease := by
      rintro rfl
      rw [hclaimed] at hsignal
      cases hsignal
    rw [enlist, put_of_ne w _ hl]
    exact hsignal
  rounds := by
    intro round hround
    exact { h.rounds round hround with }

theorem Sound.drop (h : w.Sound) {r : Registry} (hr : r.Sound)
    (hentries : r.entries ⊆ w.registry.entries) (hsignals : r.signals = w.registry.signals)
    (hkept : w.registry.fired ⊆ r.fired)
    (hfired : ∀ s ∈ r.fired, s ∈ w.registry.fired ∨
      ∃ lease, (lease, s) ∈ w.registry.entries ∧ ¬ w.store.Grants lease) :
    ({ w with registry := r } : Crew).Sound where
  recorded := h.recorded
  signals := hr
  hands := by
    intro lease
    have hhand := h.hands lease
    refine { hhand with made := ?_, registered := ?_, cancelled := ?_ }
    · intro s hs
      rw [hsignals]
      exact hhand.made s hs
    · intro s hentry
      exact hhand.registered s (hentries hentry)
    · intro s hs hnow
      rcases hfired s hnow with hbefore | ⟨other, hentry, hlost⟩
      · exact hhand.cancelled s hs hbefore
      · -- the signal is of one worker only, and that one lost its lease before it settled it
        obtain ⟨hopen, hsignal⟩ := ((h.hands other).registered s hentry).open
        obtain rfl := h.own lease other s hs hsignal
        obtain ⟨hunsettled, hlease⟩ := hhand.unsettled hopen
        exact ⟨hunsettled, hlease.resolve_left hlost⟩
  own := h.own
  fired := by
    intro s hs
    rcases hfired s hs with hbefore | ⟨lease, hentry, -⟩
    · exact h.fired s hbefore
    · exact ⟨lease, ((h.hands lease).registered s hentry).open.2⟩
  rounds := by
    intro round hround
    obtain ⟨progress, told, once, fired⟩ := h.rounds round hround
    exact ⟨progress, told, once, List.Subset.trans fired hkept⟩

theorem Sound.release (h : w.Sound) (lease : Lease) :
    ({ w with registry := w.registry.release lease } : Crew).Sound := by
  apply h.drop (h.signals.release lease)
  · exact List.filter_subset_self _
  · rfl
  · exact List.Subset.refl _
  · intro s hs
    exact .inl hs

theorem Sound.cancel (h : w.Sound) (hlost : ¬ w.store.Grants lease) :
    ({ w with registry := w.registry.cancel lease } : Crew).Sound := by
  apply h.drop (h.signals.cancel lease)
  · exact List.filter_subset_self _
  · rfl
  · intro s hs
    exact Registry.fired_cancel.mpr (.inr hs)
  · intro s hs
    rcases Registry.fired_cancel.mp hs with hsignal | hbefore
    · exact .inr ⟨lease, Registry.mem_of_signal? hsignal, hlost⟩
    · exact .inl hbefore

theorem Sound.leave (h : w.Sound) {signal : Nat} (hhandling : w.hands lease = .handling signal)
    (outcome : Outcome) :
    (w.put lease (.finishing signal (Worker.finish lease outcome))).Sound := by
  have hhand := h.hands lease
  rw [hhandling] at hhand
  apply h.put
  · refine { hhand with drawn := ?_, registered := ?_, finishing := ?_ }
    · intro _
      exact hhand.drawn nofun
    · intro s hentry
      obtain rfl := Option.some.inj (hhand.registered s hentry).open.2
      exact .inr ⟨outcome, rfl⟩
    · intro s rest hrest
      obtain ⟨rfl, rfl⟩ := Phase.finishing.inj hrest
      exact .releasing outcome
  · rw [hhandling]
    rfl

theorem Sound.finish (h : w.Sound) {signal : Nat}
    {rest rest' : Procedure Registry (Except QueueError Unit)}
    (hfinishing : w.hands lease = .finishing signal rest) (hopen : (w.hands lease).Open)
    (hnone : ∀ s, (lease, s) ∉ w.registry.entries) (hrest : Worker.Finishing lease rest') :
    (w.put lease (.finishing signal rest')).Sound := by
  have hhand := h.hands lease
  have hunsettled := hhand.unsettled hopen
  rw [hfinishing] at hhand
  apply h.put
  · refine { hhand with drawn := ?_, registered := ?_, finishing := ?_, unsettled := ?_ }
    · intro _
      exact hhand.drawn nofun
    · intro s hentry
      exact absurd hentry (hnone s)
    · intro s p hp
      obtain ⟨rfl, rfl⟩ := Phase.finishing.inj hp
      exact hrest
    · intro _
      exact hunsettled
  · rw [hfinishing]
    rfl

theorem Sound.released (h : w.Sound) {signal : Nat} {c : Call}
    {next : c.Reply → Procedure Registry (Except QueueError Unit)}
    (hsettling : w.hands lease = .finishing signal (.call c next)) (s : Nat) :
    (lease, s) ∉ w.registry.entries := by
  intro hentry
  rcases (h.hands lease).registered s hentry with hhandling | ⟨outcome, hfinishing⟩
  · cases hhandling.symm.trans hsettling
  · cases hfinishing.symm.trans hsettling

/-- The token of a claim is drawn for no other lease, so the lease that it begins is new. -/
theorem Sound.unclaimed (h : w.Sound) {routes : List String} {token : Owner} {now : Instant}
    (hfresh : (Call.claim routes token now).Fresh (w.history.map (·.entry)))
    (hbegun : (Moment.mk w.store (.claim routes token now)).entry.begun? = some lease) :
    ¬ Drawn w.history lease ∧ w.hands lease = .away := by
  have hnew : ¬ Drawn w.history lease := by
    rintro ⟨x, hx, htoken⟩
    have hdrawn := Entry.claimToken?_of_begun? hbegun
    exact hfresh.token_fresh _ hdrawn x.entry (List.mem_map_of_mem hx) htoken
  refine ⟨hnew, ?_⟩
  by_contra hhand
  exact hnew ((h.hands lease).drawn hhand)

theorem Sound.claimed (h : w.Sound) {routes : List String} {token : Owner} {now : Instant}
    (hfresh : (Call.claim routes token now).Fresh (w.history.map (·.entry)))
    (hbegun : (Moment.mk w.store (.claim routes token now)).entry.begun? = some lease) :
    (w.after (.claim routes token now)).Handles lease .claimed := by
  obtain ⟨hnew, haway⟩ := h.unclaimed hfresh hbegun
  have hnone (s : Nat) : (lease, s) ∉ w.registry.entries := by
    intro hentry
    have hopen := ((h.hands lease).registered s hentry).open.1
    rw [haway] at hopen
    exact hopen
  constructor
  case drawn =>
    intro _
    have hdrawn := Entry.claimToken?_of_begun? hbegun
    exact ⟨_, List.mem_append_right _ (List.mem_singleton_self _), hdrawn⟩
  case made => nofun
  case registered =>
    intro s hentry
    exact absurd hentry (hnone s)
  case finishing => nofun
  case cancelled => nofun
  case unsettled =>
    intro _
    refine ⟨?_, .inl (h.recorded.booked.begun_granted hbegun)⟩
    apply Unsettled.after
    · -- no earlier store granted the lease, so whoever tried to settle it changed nothing
      intro x hx hsettled
      apply Backend.settle_lost _ hsettled
      intro hgranted
      exact hnew (h.recorded.granted x hx lease hgranted)
    · intro hsettled
      cases hsettled

theorem Sound.claim (h : w.Sound) {routes : List String} {token : Owner} {now : Instant}
    (hfresh : (Call.claim routes token now).Fresh (w.history.map (·.entry)))
    (hbegun : (Moment.mk w.store (.claim routes token now)).entry.begun? = some lease) :
    ((w.after (.claim routes token now)).put lease .claimed).Sound := by
  have hafter : (w.after (.claim routes token now)).Sound := by
    apply h.after hfresh
    intro other hsettled
    cases hsettled
  apply hafter.put (h.claimed hfresh hbegun)
  change none = (w.hands lease).signal?
  rw [(h.unclaimed hfresh hbegun).2]
  rfl

theorem Sound.settle (h : w.Sound) {signal : Nat}
    {next : c.Reply → Procedure Registry (Except QueueError Unit)}
    (hsettling : w.hands lease = .finishing signal (.call c next)) (reply : c.Reply) :
    c.settled? = some lease ∧ (w.put lease (.finishing signal (next reply))).Sound ∧
      ¬ ((w.put lease (.finishing signal (next reply))).hands lease).Open := by
  obtain ⟨hown, hlast⟩ := ((h.hands lease).finishing _ _ hsettling).settle
  obtain ⟨result, hdone⟩ := hlast reply
  rw [hdone, put_self]
  refine ⟨hown, ?_, id⟩
  have hopen : (w.hands lease).Open := by
    rw [hsettling]
    trivial
  exact h.finish hsettling hopen (h.released hsettling) (.settled result)

/-! ## Rounds -/

theorem Sound.registered_drawn (h : w.Sound) (hlease : lease ∈ w.registry.leases) :
    Drawn w.history lease := by
  obtain ⟨⟨l, s⟩, hentry, rfl⟩ := List.mem_map.mp hlease
  have hopen := ((h.hands l).registered s hentry).open.1
  apply (h.hands l).drawn
  intro haway
  rw [haway] at hopen
  exact hopen

theorem Sound.with_rounds (h : w.Sound) {rounds : List Round} (hall : ∀ r ∈ rounds, w.Knows r) :
    ({ w with rounds } : Crew).Sound where
  recorded := h.recorded
  signals := h.signals
  hands := by
    intro lease
    exact { h.hands lease with }
  own := h.own
  fired := h.fired
  rounds := by
    intro round hround
    exact { hall round hround with }

theorem Sound.go_on (h : w.Sound) {before later : List Round} {old new : Round}
    (hrounds : w.rounds = before ++ old :: later) (hnew : w.Knows new) :
    ({ w with rounds := before ++ new :: later } : Crew).Sound := by
  have hold := h.rounds
  rw [hrounds] at hold
  apply h.with_rounds
  intro round hround
  rcases List.mem_append.mp hround with hbefore | hlater
  · exact hold round (List.mem_append_left _ hbefore)
  · rcases List.mem_cons.mp hlater with rfl | hlater
    · exact hnew
    · exact hold round (List.mem_append_right _ (List.mem_cons_of_mem _ hlater))

theorem Sound.knows (h : w.Sound) {before later : List Round} {round : Round}
    (hrounds : w.rounds = before ++ round :: later) : w.Knows round := by
  apply h.rounds
  rw [hrounds]
  exact List.mem_append_right _ List.mem_cons_self

theorem Knows.quiet {rest rest' : Procedure Registry Nat} {deeds : List Deed} {d : Deed}
    {readings : List Instant} (h : w.Knows ⟨rest, deeds, readings⟩)
    (hprogress : Round.Progress w.store w.history readings rest' (deeds ++ [d]))
    (htold : d.Told w.history readings) (hnone : d.fired = []) :
    w.Knows ⟨rest', deeds ++ [d], readings⟩ := by
  have hfired : Round.fired ⟨rest', deeds ++ [d], readings⟩ =
      Round.fired ⟨rest, deeds, readings⟩ := by
    rw [Round.fired, Round.signals_append, hnone, List.append_nil]
    rfl
  constructor
  case progress => exact hprogress
  case told =>
    intro e he
    rcases List.mem_append.mp he with he | he
    · exact h.told e he
    · rw [List.mem_singleton.mp he]
      exact htold
  case once =>
    rw [hfired]
    exact h.once
  case fired =>
    rw [hfired]
    exact h.fired

theorem Sound.update (h : w.Sound) {deeds : List Deed} {f : Registry → Registry}
    {next : Registry → Procedure Registry Nat} {readings : List Instant}
    (hround : w.Knows ⟨.update f next, deeds, readings⟩) :
    ({ w with registry := f w.registry } : Crew).Sound ∧
      ({ w with registry := f w.registry } : Crew).Knows
        ⟨next w.registry, deeds ++ [.updated w.registry (f w.registry)], readings⟩ := by
  have hprogress := hround.progress.update fun lease => h.registered_drawn
  rcases hround.progress.updates with rfl | ⟨lease, rfl, hlost⟩
  · refine ⟨h, hround.quiet hprogress trivial (Deed.fired_read _)⟩
  · refine ⟨h.cancel hlost, hprogress, ?_, ?_, ?_⟩
    · intro d hd
      rcases List.mem_append.mp hd with hd | hd
      · exact hround.told d hd
      · rw [List.mem_singleton.mp hd]
        trivial
    · rw [Round.fired, Round.signals_append, Deed.fired_cancel]
      apply hround.once.append
      · cases w.registry.signal? lease <;> simp
      · intro s hbefore hs
        have hheld := Registry.mem_of_signal? (Option.mem_toList.mp hs)
        exact h.signals.held_unfired hheld (hround.fired hbefore)
    · rw [Round.fired, Round.signals_append, Deed.fired_cancel]
      intro s hs
      apply Registry.fired_cancel.mpr
      rcases List.mem_append.mp hs with hbefore | hs
      · exact .inr (hround.fired hbefore)
      · exact .inl (Option.mem_toList.mp hs)

theorem Sound.renew (h : w.Sound) {deeds : List Deed} {next : c.Reply → Procedure Registry Nat}
    {readings : List Instant} (hround : w.Knows ⟨.call c next, deeds, readings⟩) :
    (w.after c).Sound ∧
      (w.after c).Knows
        ⟨next (w.store.answer c).1, deeds ++ [.called w.history ⟨w.store, c⟩], readings⟩ := by
  obtain ⟨now, hread, lease, todo, lost, hp⟩ := hround.progress.calls
  rw [Round.renewEach_cons] at hp
  have hc : c = .heartbeat lease.id lease.token now := (Procedure.call.inj hp).1
  have hfresh : c.Fresh (w.history.map (·.entry)) := by
    rw [hc]
    constructor
    · intro id hid
      cases hid
    · intro token htoken
      cases htoken
  constructor
  · apply h.after hfresh
    rw [hc]
    intro other hsettled
    cases hsettled
  · have hprogress := (hround.progress.call h.recorded).after h.recorded hfresh
    apply (hround.after h.recorded hfresh).quiet hprogress _ rfl
    refine ⟨h.recorded, List.prefix_rfl, ?_⟩
    rw [hc]
    intro t ht
    obtain rfl := Option.some.inj ht
    exact hread

/-! ## Runs -/

theorem Sound.tick (h : w.Sound) (now : Instant) : ({ w with clock := now } : Crew).Sound where
  recorded := h.recorded
  signals := h.signals
  hands := by
    intro lease
    exact { h.hands lease with }
  own := h.own
  fired := h.fired
  rounds := by
    intro round hround
    exact { h.rounds round hround with }

theorem Step.sound {w' : Crew} (h : w.Sound) (hstep : Step w w') : w'.Sound := by
  cases hstep with
  | claim fresh begun => exact h.claim fresh begun
  | elsewhere fresh other =>
      apply h.after fresh
      intro lease hsettled
      rw [other lease hsettled]
      exact id
  | register hand ran =>
      obtain ⟨rfl, hrest⟩ := Prod.mk.inj ran
      obtain ⟨rfl, rfl⟩ := Prod.mk.inj hrest
      exact h.register hand
  | leave hand => exact h.leave hand _
  | @release lease signal f next hand =>
      have hopen : (w.hands lease).Open := by
        rw [hand]
        trivial
      obtain ⟨rfl, hrest⟩ := ((h.hands lease).finishing _ _ hand).release
      have hreleased := h.release lease
      apply hreleased.finish hand hopen _ (hrest w.registry)
      intro s hentry
      exact (Registry.mem_release.mp hentry).1 rfl
  | @settle lease signal c next hand =>
      obtain ⟨hown, hput, hdone⟩ := h.settle hand (w.store.answer c).1
      apply hput.after
      · cases c with
        | complete | fail =>
            constructor
            · intro id hid
              cases hid
            · intro token htoken
              cases htoken
        | _ => cases hown
      · intro other hsettled
        obtain rfl := Option.some.inj (hown.symm.trans hsettled)
        exact hdone
  | settleFails hand => exact (h.settle hand _).2.1
  | tick now => exact h.tick now
  | begin =>
      have hbegun : w.Knows ⟨Monitor.renewLocal w.clock, [], [w.clock]⟩ :=
        ⟨.begun List.mem_cons_self, by simp, List.nodup_nil, List.nil_subset _⟩
      apply h.with_rounds
      intro round hround
      rcases List.mem_append.mp hround with hround | hround
      · exact h.rounds round hround
      · rw [List.mem_singleton.mp hround]
        exact hbegun
  | update round =>
      obtain ⟨hupdated, hnew⟩ := h.update (h.knows round)
      exact hupdated.go_on round hnew
  | renew round =>
      obtain ⟨hcalled, hnew⟩ := h.renew (h.knows round)
      exact hcalled.go_on round hnew
  | renewFails round fault =>
      have hround := h.knows round
      exact h.go_on round (hround.quiet (hround.progress.fail fault) trivial rfl)
  | reread round order =>
      have hround := h.knows round
      apply h.go_on round
      refine { hround with progress := hround.progress.reread order, told := ?_ }
      intro d hd
      exact (hround.told d hd).later List.prefix_rfl (List.subset_cons_self _ _)

theorem Reachable.sound (hw : w.Reachable) : w.Sound := by
  induction hw with
  | memory clock => exact .idle (.inl rfl) clock
  | table clock => exact .idle (.inr rfl) clock
  | step _ hstep ih => exact hstep.sound ih

end Crew

end WorkQueue
