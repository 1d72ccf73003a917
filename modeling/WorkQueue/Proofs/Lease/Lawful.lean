import Mathlib
import WorkQueue.Lease.Monitor
import WorkQueue.Proofs.Store.Backend

/-! # What coordinators and monitors call

Whatever replies a coordinator or a monitor gets, a lease is taken back only by a recovery pass: of
a message that its scan found, with a cutoff that was reckoned from a reading of the clock, and
after the test of the retries. Claims and renewals are made at readings of the clock.
-/

namespace WorkQueue

/-! ## Calls of a run -/

/-- The reading of the clock that a lease is claimed or renewed at. -/
def Call.reading? : Call → Option Instant
  | claim _ _ now | heartbeat _ _ now => some now
  | _ => none

/-- A recovery pass with the configuration found the message. -/
def MonitorConfig.Scanned (config : MonitorConfig) (readings : List Instant) (log : List Entry)
    (m : Message) : Prop :=
  ∃ now ∈ readings, ∃ threshold cutoff, Span.ofDuration? config.threshold = some threshold ∧
    now.shift? (-threshold) = some cutoff ∧ ∃ e ∈ log, e.call = .scan cutoff ∧ m ∈ e.found

/-- What a run calls after some readings of the clock and some calls. -/
inductive Call.Lawful (allowed : MonitorConfig → Prop) (readings : List Instant)
    (log : List Entry) : Call → Prop
  | plain {c : Call} (snapshot : c.snapshot? = none) (reading : ∀ t ∈ c.reading?, t ∈ readings) :
      Lawful allowed readings log c
  | reset {config : MonitorConfig} {m : Message} (allow : allowed config)
      (scanned : config.Scanned readings log m)
      (low : m.retryCount + 1 < config.maxRetries.toNat) : Lawful allowed readings log (.reset m)
  | poison {config : MonitorConfig} {m : Message} (allow : allowed config)
      (scanned : config.Scanned readings log m) (fits : m.retryCount + 1 < UInt32.size)
      (high : config.maxRetries.toNat ≤ m.retryCount + 1) :
      Lawful allowed readings log (.poison m Message.tooManyExpiries)

section Lawful

variable {allowed : MonitorConfig → Prop} {readings readings' : List Instant}
  {log log' : List Entry} {c : Call}

theorem MonitorConfig.Scanned.mono {config : MonitorConfig} {m : Message}
    (h : config.Scanned readings log m) (hr : readings ⊆ readings') (hl : log ⊆ log') :
    config.Scanned readings' log' m := by
  obtain ⟨now, hnow, threshold, cutoff, hspan, hcutoff, e, he, hscan⟩ := h
  exact ⟨now, hr hnow, threshold, cutoff, hspan, hcutoff, e, hl he, hscan⟩

theorem Call.Lawful.mono (h : c.Lawful allowed readings log) (hr : readings ⊆ readings')
    (hl : log ⊆ log') : c.Lawful allowed readings' log' := by
  cases h with
  | plain hsnapshot hreading => exact .plain hsnapshot fun t ht => hr (hreading t ht)
  | reset hallow hscanned hlow => exact .reset hallow (hscanned.mono hr hl) hlow
  | poison hallow hscanned hfits hhigh =>
      exact .poison hallow (hscanned.mono hr hl) hfits hhigh

theorem Call.Lawful.silent (hsnapshot : c.snapshot? = none) (hreading : c.reading? = none) :
    c.Lawful allowed readings log :=
  .plain hsnapshot fun t ht => by cases hreading.symm.trans ht

theorem Call.Lawful.scanned (h : c.Lawful allowed readings log) {m : Message}
    (hm : c.snapshot? = some m) : ∃ config, allowed config ∧ config.Scanned readings log m := by
  cases h with
  | plain hsnapshot => cases hsnapshot.symm.trans hm
  | reset hallow hscanned | poison hallow hscanned =>
      exact ⟨_, hallow, Option.some.inj hm ▸ hscanned⟩

theorem Call.Lawful.admissible (h : c.Lawful allowed readings log) (hfresh : c.Fresh log) :
    c.Admissible log := by
  refine ⟨hfresh, fun m hm => ?_⟩
  obtain ⟨-, -, -, -, -, -, -, -, e, he, -, hfound⟩ := h.scanned hm
  exact ⟨e, he, hfound⟩

end Lawful

/-! ## Procedures of a run -/

namespace Procedure

variable {S α β : Type} {allowed : MonitorConfig → Prop} {readings : List Instant}
  {log : List Entry}

/-- Every call that the procedure may come to is lawful. -/
def Obeys (allowed : MonitorConfig → Prop) (readings : List Instant) :
    Procedure S α → List Entry → Prop
  | done _, _ => True
  | call c next, log => c.Lawful allowed readings log ∧
      ∀ r, (next r).Obeys allowed readings (log ++ [⟨c, r⟩])
  | update _ next, log => ∀ s, (next s).Obeys allowed readings log

theorem Obeys.mono {p : Procedure S α} (h : p.Obeys allowed readings log) {readings' : List Instant}
    {log' : List Entry} (hr : readings ⊆ readings') (hl : log ⊆ log') :
    p.Obeys allowed readings' log' := by
  induction p generalizing log log' with
  | done => trivial
  | call c next ih =>
      exact ⟨h.1.mono hr hl, fun r => ih r (h.2 r) (List.append_subset.mpr
        ⟨List.subset_append_of_subset_left _ hl, List.subset_append_right _ _⟩)⟩
  | update f next ih => exact fun s => ih s (h s) hl

theorem Obeys.bind {p : Procedure S α} {f : α → Procedure S β}
    (h : p.Obeys allowed readings log)
    (hf : ∀ value log', log ⊆ log' → (f value).Obeys allowed readings log') :
    (p >>= f).Obeys allowed readings log := by
  change (p.bind f).Obeys allowed readings log
  induction p generalizing log with
  | done value => exact hf value log (List.Subset.refl log)
  | call c next ih =>
      refine ⟨h.1, fun r => ih r (h.2 r) fun value log' hl => hf value log' ?_⟩
      exact List.Subset.trans (List.subset_append_left _ _) hl
  | update g next ih => exact fun s => ih s (h s) hf

theorem obeys_pure (value : α) : (pure value : Procedure S α).Obeys allowed readings log := trivial

theorem obeys_ask {c : Call} (h : c.Lawful allowed readings log) :
    (ask c : Procedure S c.Reply).Obeys allowed readings log := ⟨h, fun _ => trivial⟩

theorem obeys_ask_pure {c : Call} (h : c.Lawful allowed readings log) {f : c.Reply → Procedure S α}
    (hf : ∀ r, ∃ value, f r = pure value) : (ask c >>= f).Obeys allowed readings log := by
  refine (obeys_ask h).bind fun r log' _ => ?_
  obtain ⟨value, hvalue⟩ := hf r
  rw [hvalue]
  exact obeys_pure value

end Procedure

open Procedure (Obeys)

section Duties

variable {S : Type} {allowed : MonitorConfig → Prop} {readings : List Instant} {log : List Entry}

namespace Coordinator

theorem claim_obeys (token : Owner) (routes : List String) {now : Instant} (hnow : now ∈ readings) :
    (claim token routes now : Procedure S _).Obeys allowed readings log :=
  Procedure.obeys_ask_pure (.plain rfl fun t ht => Option.some.inj ht ▸ hnow) fun r => by
    cases r <;> exact ⟨_, rfl⟩

theorem renew_obeys (lease : Lease) {now : Instant} (hnow : now ∈ readings) :
    (renew lease now : Procedure S _).Obeys allowed readings log :=
  Procedure.obeys_ask_pure (.plain rfl fun t ht => Option.some.inj ht ▸ hnow) fun r => by
    cases r <;> exact ⟨_, rfl⟩

theorem commit_obeys (lease : Lease) :
    (commit lease : Procedure S _).Obeys allowed readings log :=
  Procedure.obeys_ask_pure (.silent rfl rfl) fun _ => ⟨_, rfl⟩

theorem fail_obeys (lease : Lease) (reason : String) :
    (fail lease reason : Procedure S _).Obeys allowed readings log :=
  Procedure.obeys_ask_pure (.silent rfl rfl) fun _ => ⟨_, rfl⟩

end Coordinator

namespace Monitor

theorem renewEach_obeys {now : Instant} (hnow : now ∈ readings) (leases : List Lease) (lost : Nat) :
    (renewEach now leases lost).Obeys allowed readings log := by
  induction leases generalizing lost log with
  | nil => trivial
  | cons lease rest ih =>
      refine (Coordinator.renew_obeys lease hnow).bind fun outcome log' _ => ?_
      split
      · exact fun before => ih _
      · exact ih lost

theorem renewLocal_obeys {now : Instant} (hnow : now ∈ readings) :
    (renewLocal now).Obeys allowed readings log := fun registry =>
  renewEach_obeys hnow registry.leases 0

/-- Every message that a recovery pass comes to was found by its scan. -/
theorem recoverEach_obeys {config : MonitorConfig} (hallow : allowed config)
    {expired : List Message}
    (hscanned : ∀ m ∈ expired, config.Scanned readings log m) (report : RecoveryReport) :
    (recoverEach config.maxRetries expired report : Procedure S _).Obeys allowed readings log := by
  induction expired generalizing report log with
  | nil => trivial
  | cons m rest ih =>
      have hm := hscanned m List.mem_cons_self
      have hrest (log' : List Entry) (hl : log ⊆ log') (report : RecoveryReport) :
          (recoverEach config.maxRetries rest report : Procedure S _).Obeys allowed readings log' :=
        ih (fun a ha => (hscanned a (List.mem_cons_of_mem m ha)).mono (List.Subset.refl _) hl)
          report
      rw [recoverEach]
      split
      · trivial
      · rename_i hfits
        rw [Message.retriesFull, decide_eq_true_eq, not_le] at hfits
        split
        · rename_i hhigh
          refine (Procedure.obeys_ask (.poison hallow hm hfits hhigh)).bind fun r log' hl => ?_
          split
          · trivial
          · exact hrest log' hl _
          · exact hrest log' hl _
        · rename_i hlow
          refine (Procedure.obeys_ask (.reset hallow hm (not_le.mp hlow))).bind fun r log' hl => ?_
          split
          · trivial
          · exact hrest log' hl _
          · exact hrest log' hl _

theorem recover_obeys {config : MonitorConfig} (hallow : allowed config) {now : Instant}
    (hnow : now ∈ readings) : (recover config now : Procedure S _).Obeys allowed readings log := by
  rw [recover]
  split
  · trivial
  · rename_i threshold hthreshold
    split
    · trivial
    · rename_i cutoff hcutoff
      refine ⟨.silent rfl rfl, fun r => ?_⟩
      cases r with
      | error e => trivial
      | ok expired =>
          refine recoverEach_obeys hallow (fun m hm => ?_) {}
          exact ⟨now, hnow, threshold, cutoff, hthreshold, hcutoff, _,
            List.mem_append_right _ (List.mem_singleton_self _), rfl, hm⟩

theorem purge_obeys (now : Instant) :
    (purge now : Procedure S _).Obeys allowed readings log :=
  Procedure.obeys_ask_pure (.silent rfl rfl) fun r => by cases r <;> exact ⟨_, rfl⟩

theorem requeue_obeys (id : MessageId) :
    (requeue id : Procedure S _).Obeys allowed readings log :=
  Procedure.obeys_ask_pure (.silent rfl rfl) fun r => by cases r <;> exact ⟨_, rfl⟩

end Monitor

end Duties

end WorkQueue
