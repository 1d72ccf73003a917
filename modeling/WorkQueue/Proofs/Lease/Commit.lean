import Mathlib
import WorkQueue.Proofs.Lease.Grants

/-! # Commits

A commit completes the message if its lease is granted. On a message that is complete already it
succeeds for everybody and changes nothing, because the token is forgotten with the completion. So a
successful commit does not tell whose work it was that completed the message; but the message was
completed by the commit of the one lease that was granted then.
-/

namespace WorkQueue.World

open Relation (ReflTransGen)

variable {allowed : MonitorConfig → Prop} {w w' w₁ w₂ : World} {lease : Lease}

/-- The lease was granted in some state of the run, and not any more in a later one. -/
def Lost (allowed : MonitorConfig → Prop) (w : World) (lease : Lease) : Prop :=
  ∃ w₁ w₂, w₁.Reachable allowed ∧ ReflTransGen (Step allowed) w₁ w₂ ∧
    ReflTransGen (Step allowed) w₂ w ∧ w₁.store.Grants lease ∧ ¬ w₂.store.Grants lease

/-- An earlier step of the run was the commit of the lease, which was granted then. -/
def CompletedUnder (allowed : MonitorConfig → Prop) (w : World) (lease : Lease) : Prop :=
  ∃ w₁ w₂, w₁.Reachable allowed ∧ Step allowed w₁ w₂ ∧ ReflTransGen (Step allowed) w₂ w ∧
    w₁.store.Grants lease ∧ w₂.log = w₁.log ++ [⟨.complete lease.id lease.token, .ok ()⟩]

theorem Reachable.booked (hw : w.Reachable allowed) : w.store.Booked w.log := by
  induction hw with
  | memory clock => exact .start (.inl rfl)
  | table clock => exact .start (.inr rfl)
  | step _ hstep ih =>
      cases hstep with
      | call _ hfresh => exact ih.step hfresh
      | _ => exact ih

theorem Reachable.steps (hw : w.Reachable allowed) (h : ReflTransGen (Step allowed) w w') :
    w'.Reachable allowed := by
  induction h with
  | refl => exact hw
  | tail _ hstep ih => exact ih.step hstep

/-! ## Leases that are lost -/

theorem log_subset_of_steps (h : ReflTransGen (Step allowed) w w') : w.log ⊆ w'.log := by
  induction h with
  | refl => exact List.Subset.refl _
  | tail _ hstep ih =>
      cases hstep with
      | call => exact List.Subset.trans ih (List.subset_append_left _ _)
      | _ => exact ih

/-- A lease whose token is drawn is not granted again once it is lost. -/
theorem Reachable.lost_step (hw : w.Reachable allowed) (hstep : Step allowed w w')
    (hdrawn : ∃ e ∈ w.log, e.call.claimToken? = some lease.token)
    (hlost : ¬ w.store.Grants lease) : ¬ w'.store.Grants lease := by
  cases hstep with
  | call _ hfresh => exact hw.booked.lost_stays hfresh hdrawn hlost
  | _ => exact hlost

theorem Reachable.lost_steps (hw : w.Reachable allowed) (h : ReflTransGen (Step allowed) w w')
    (hdrawn : ∃ e ∈ w.log, e.call.claimToken? = some lease.token)
    (hlost : ¬ w.store.Grants lease) : ¬ w'.store.Grants lease := by
  obtain ⟨e, he, htoken⟩ := hdrawn
  induction h with
  | refl => exact hlost
  | tail hsteps hstep ih =>
      exact (hw.steps hsteps).lost_step hstep ⟨e, log_subset_of_steps hsteps he, htoken⟩ ih

theorem Lost.not_granted (h : Lost allowed w lease) : ¬ w.store.Grants lease := by
  obtain ⟨w₁, w₂, hw₁, hsteps₁, hsteps₂, hgranted, hlost⟩ := h
  obtain ⟨e, he, htoken, -⟩ := hw₁.booked.claimed lease hgranted
  have hdrawn : ∃ e ∈ w₂.log, e.call.claimToken? = some lease.token :=
    ⟨e, log_subset_of_steps hsteps₁ he, htoken⟩
  exact (hw₁.steps hsteps₁).lost_steps hsteps₂ hdrawn hlost

theorem Reachable.begun (hw : w.Reachable allowed)
    (hbegun : ∃ e ∈ w.log, e.begun? = some lease) : w.store.Grants lease ∨ Lost allowed w lease := by
  induction hw with
  | memory clock | table clock =>
      obtain ⟨e, he, -⟩ := hbegun
      cases he
  | @step w w' hw hstep ih =>
      have kept (hold : ∃ e ∈ w.log, e.begun? = some lease) :
          w'.store.Grants lease ∨ Lost allowed w' lease := by
        by_cases hnow : w'.store.Grants lease
        · exact .inl hnow
        · rcases ih hold with hgranted | ⟨w₁, w₂, hw₁, hsteps₁, hsteps₂, hgranted, hlost⟩
          · exact .inr ⟨w, w', hw, .single hstep, .refl, hgranted, hnow⟩
          · exact .inr ⟨w₁, w₂, hw₁, hsteps₁, hsteps₂.tail hstep, hgranted, hlost⟩
      cases hstep with
      | call =>
          obtain ⟨e, he, hbegun⟩ := hbegun
          rcases List.mem_append.mp he with hold | hnew
          · exact kept ⟨e, hold, hbegun⟩
          · obtain rfl := List.mem_singleton.mp hnew
            exact .inl (hw.booked.begun_granted hbegun)
      | _ => exact kept hbegun

/-! ## Commits of a run -/

/-- What is complete was completed by the commit of the lease that was granted. -/
theorem Reachable.completed (hw : w.Reachable allowed) {id : MessageId}
    (hdone : w.store.Finished id) : ∃ token, CompletedUnder allowed w ⟨id, token⟩ := by
  induction hw with
  | memory clock | table clock =>
      obtain ⟨seat, hseat, -⟩ := hdone
      cases hseat
  | @step w w' hw hstep ih =>
      -- an earlier completion is one of the longer run
      have longer (hold : w.store.Finished id) : ∃ token, CompletedUnder allowed w' ⟨id, token⟩ := by
        obtain ⟨token, w₁, w₂, hw₁, hcommit, hsteps, hgranted, hlog⟩ := ih hold
        exact ⟨token, w₁, w₂, hw₁, hcommit, hsteps.tail hstep, hgranted, hlog⟩
      cases hstep with
      | @call before after c next htask hfresh =>
          rcases hw.booked.finished_by hdone with hold | ⟨token, rfl, hgranted⟩
          · exact longer hold
          · refine ⟨token, w, _, hw, .call htask hfresh, .refl, hgranted, ?_⟩
            rw [(hw.booked.granted hgranted).1]
      | _ => exact longer hdone

/-- The reply to a commit in some state, and the store after it. -/
def committed (w : World) (lease : Lease) (registry : Registry) : Except QueueError Unit × Backend :=
  let out := (Coordinator.commit lease).run Backend.answer w.store registry
  (out.1, out.2.1)

theorem committed_eq (w : World) (lease : Lease) (registry : Registry) :
    w.committed lease registry =
      (Coordinator.settled (w.store.answer (.complete lease.id lease.token)).1,
        (w.store.answer (.complete lease.id lease.token)).2) := rfl

theorem settled_ok {reply : Except StoreError Unit} (h : Coordinator.settled reply = .ok ()) :
    reply = .ok () := by
  cases reply with
  | ok u => rfl
  | error e => cases e <;> cases h

theorem Reachable.commit_ok (hw : w.Reachable allowed) {registry : Registry}
    (hok : (w.committed lease registry).1 = .ok ()) :
    w.store.Grants lease ∨ w.store.Finished lease.id :=
  (hw.booked.complete_ok (settled_ok hok)).1

theorem Reachable.commit_granted (hw : w.Reachable allowed) (hgranted : w.store.Grants lease)
    (registry : Registry) :
    (w.committed lease registry).1 = .ok () ∧ (w.committed lease registry).2.Finished lease.id := by
  have hreply := (hw.booked.granted hgranted).1
  rw [committed_eq, hreply]
  exact ⟨rfl, (hw.booked.complete_ok hreply).2⟩

theorem Reachable.commit_lost (hw : w.Reachable allowed) (hlost : ¬ w.store.Grants lease)
    (registry : Registry) :
    (w.committed lease registry).2 = w.store ∧
      (¬ w.store.Finished lease.id → ∃ e, (w.committed lease registry).1 = .error e) := by
  refine ⟨Backend.settle_lost hlost rfl, ?_⟩
  intro hopen
  cases hreply : (w.committed lease registry).1 with
  | error e => exact ⟨e, rfl⟩
  | ok u =>
      rcases hw.commit_ok hreply with hgranted | hdone
      · exact absurd hgranted hlost
      · exact absurd hdone hopen

/-- A commit succeeds while its lease is granted, and completes the message; otherwise it changes
nothing and succeeds on a complete message only. A complete message was completed by the commit of a
lease that was granted. A claimed lease is granted until it is lost, and no lease is granted that was
lost or that no claim began. -/
theorem commits_fenced (hw : w.Reachable allowed) :
    (∀ lease registry,
      ((w.committed lease registry).1 = .ok () → w.store.Grants lease ∨ w.store.Finished lease.id) ∧
      (w.store.Grants lease → (w.committed lease registry).1 = .ok () ∧
        (w.committed lease registry).2.Finished lease.id) ∧
      (¬ w.store.Grants lease → (w.committed lease registry).2 = w.store ∧
        (¬ w.store.Finished lease.id → ∃ e, (w.committed lease registry).1 = .error e))) ∧
    (∀ id, w.store.Finished id → ∃ token, CompletedUnder allowed w ⟨id, token⟩) ∧
    ∀ lease, ((∃ e ∈ w.log, e.begun? = some lease) →
        w.store.Grants lease ∨ Lost allowed w lease) ∧
      ((Lost allowed w lease ∨ ∀ e ∈ w.log, ¬ e.Began lease) → ¬ w.store.Grants lease) := by
  refine ⟨?_, fun id => hw.completed, fun lease => ⟨hw.begun, ?_⟩⟩
  · intro lease registry
    exact ⟨hw.commit_ok, fun hgranted => hw.commit_granted hgranted registry,
      fun hlost => hw.commit_lost hlost registry⟩
  · rintro (hlost | hnever)
    · exact hlost.not_granted
    · intro hgranted
      obtain ⟨e, he, hbegan⟩ := hw.booked.claimed lease hgranted
      exact hnever e he hbegan

/-- A message that a first worker claimed, whose lease expired, and that a second worker claimed and
completed. -/
theorem reachable_retaken : ∃ w : World, w.Reachable (fun _ => True) ∧
    w.store.Finished ⟨.ofNat 1⟩ ∧ ¬ w.store.Grants ⟨⟨.ofNat 1⟩, ⟨"a"⟩⟩ ∧
    (∀ registry, (w.committed ⟨⟨.ofNat 1⟩, ⟨"a"⟩⟩ registry).1 = .ok ()) ∧
    ∀ e ∈ w.log, e.ended? = some ⟨⟨.ofNat 1⟩, ⟨"a"⟩⟩ → e.completed? = none := by
  let id : MessageId := ⟨.ofNat 1⟩
  let later : Instant := ⟨2, 0, by decide⟩
  let waiting := NewMessage.toMessage { payload := [1] } id 1 .epoch
  let held := waiting.beginLease ⟨"a"⟩ .epoch
  let again := held.reclaimed.beginLease ⟨"b"⟩ later
  let idle : List (Procedure Registry Unit) := [.done ()]
  let inserted : Entry := ⟨.insert { payload := [1] } id .epoch, .ok id⟩
  let claimed : Entry := ⟨.claim [] ⟨"a"⟩ .epoch, .ok (some held)⟩
  let scanned : Entry := ⟨.scan ⟨1, 0, by decide⟩, .ok [held]⟩
  let reset : Entry := ⟨.reset held, .ok true⟩
  let retaken : Entry := ⟨.claim [] ⟨"b"⟩ later, .ok (some again)⟩
  let completed : Entry := ⟨.complete id ⟨"b"⟩, .ok ()⟩
  have hstart : Reachable (fun _ => True) _ := .memory .epoch
  have hinserted := (hstart.step (@Step.begin _ _ (.call inserted.call) ⟨rfl, rfl⟩)).step
    (@Step.call _ _ [] [] inserted.call _ rfl (by decide))
  change Reachable _ ⟨.memory ⟨[waiting], [], 1⟩, .epoch, [], idle, [inserted]⟩ at hinserted
  have hclaimed := (hinserted.step (@Step.begin _ _ (.claim ⟨"a"⟩ []) trivial)).step
    (@Step.call _ _ [] idle claimed.call _ rfl (by decide))
  change Reachable _ ⟨.memory ⟨[held], [], 1⟩, .epoch, [], .done () :: idle,
    [inserted, claimed]⟩ at hclaimed
  -- the lease is two seconds old, and the threshold is one second
  have hticked := hclaimed.step (@Step.tick _ _ later)
  have hrecover := hticked.step (@Step.begin _ _ (.recover ⟨⟨1, 0, by decide⟩, ⟨1, 0, by decide⟩,
    ⟨1, 0, by decide⟩, ⟨1, 0, by decide⟩, 3⟩) trivial)
  change Reachable _ ⟨.memory ⟨[held], [], 1⟩, later, [.epoch],
    Errand.procedure ⟨2, 0, by decide⟩ (.recover ⟨⟨1, 0, by decide⟩, ⟨1, 0, by decide⟩,
      ⟨1, 0, by decide⟩, ⟨1, 0, by decide⟩, 3⟩) :: .done () :: idle, [inserted, claimed]⟩ at hrecover
  have hscanned := hrecover.step
    (@Step.call _ _ [] (.done () :: idle) (.scan ⟨1, 0, by decide⟩) _ rfl (by decide))
  have hreset := hscanned.step (@Step.call _ _ [] (.done () :: idle) reset.call _ rfl (by decide))
  change Reachable _ ⟨.memory ⟨[held.reclaimed], [], 1⟩, later, [.epoch],
    [.done (), .done (), .done ()], [inserted, claimed, scanned, reset]⟩ at hreset
  have hretaken := (hreset.step (@Step.begin _ _ (.claim ⟨"b"⟩ []) trivial)).step
    (@Step.call _ _ [] _ retaken.call _ rfl (by decide))
  have hcompleted := (hretaken.step (@Step.begin _ _ (.commit ⟨id, ⟨"b"⟩⟩) trivial)).step
    (@Step.call _ _ [] _ completed.call _ rfl (by decide))
  refine ⟨_, hcompleted, ?_, ?_, ?_, ?_⟩
  · decide
  · decide
  · intro registry
    rfl
  · decide

/-- A commit under the lease that was taken back leaves the store alone, and the message was completed
by somebody's commit. -/
theorem commits_fenced_retaken : ∃ w : World, w.store.Finished ⟨.ofNat 1⟩ ∧
    (∀ registry, (w.committed ⟨⟨.ofNat 1⟩, ⟨"a"⟩⟩ registry).2 = w.store) ∧
    ∃ token, CompletedUnder (fun _ => True) w ⟨⟨.ofNat 1⟩, token⟩ := by
  obtain ⟨w, hw, hdone, hlost, -⟩ := reachable_retaken
  obtain ⟨hcommits, hcompleted, -⟩ := commits_fenced hw
  refine ⟨w, hdone, ?_, hcompleted _ hdone⟩
  intro registry
  exact ((hcommits _ registry).2.2 hlost).1

/-- A commit may succeed under a lease that is not granted and that completed nothing. -/
theorem not_forall_commit_own :
    ¬ ∀ (w : World) (lease : Lease) (registry : Registry), w.Reachable (fun _ => True) →
      (w.committed lease registry).1 = .ok () →
      w.store.Grants lease ∨ ∃ e ∈ w.log, e.completed? = some lease.id ∧ e.ended? = some lease := by
  intro hall
  obtain ⟨w, hw, -, hlost, hok, hnone⟩ := reachable_retaken
  rcases hall w ⟨⟨.ofNat 1⟩, ⟨"a"⟩⟩ .empty hw (hok .empty) with hgranted | ⟨e, he, hdone, hended⟩
  · exact hlost hgranted
  · cases hdone.symm.trans (hnone e he hended)

end WorkQueue.World
