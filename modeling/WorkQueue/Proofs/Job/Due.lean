import Mathlib
import WorkQueue.Job.Record
import WorkQueue.Proofs.Cron.Search
import WorkQueue.Proofs.Cron.Slots

/-! # Due slots

However a due slot is found, in a window or in the current bucket, it is the slot of the latest fire
time up to now. So it is later than any slot of an earlier fire time, if it is another one.
-/

namespace WorkQueue.JobRecord

variable {j : JobRecord} {s : Cron.Schedule} {now slot : Instant}

theorem windowedFire?_latest (hs : s.fields.Ordered) {fire : Instant}
    (h : j.windowedFire? s now = some fire) : s.Latest now fire := by
  unfold windowedFire? at h
  split at h
  · obtain ⟨window, -, h⟩ := Option.bind_eq_some_iff.mp h
    obtain ⟨span, -, h⟩ := Option.bind_eq_some_iff.mp h
    exact Cron.Schedule.latestAtOrBefore?_latest hs h
  · cases h

theorem dueSlot?_latest (hs : s.fields.Ordered) (h : j.dueSlot? s now = some slot) :
    j.lastFiredSlot ≠ some slot ∧ ∃ fire, s.Latest now fire ∧ slot = s.slotOf fire := by
  unfold dueSlot? at h
  dsimp only at h
  split at h
  · cases h
  · obtain ⟨fire, hfire, h⟩ := Option.bind_eq_some_iff.mp h
    have hlatest : s.Latest now fire := by
      rcases Option.or_eq_some_iff.mp hfire with hwindowed | ⟨-, hbucket⟩
      · exact windowedFire?_latest hs hwindowed
      · obtain ⟨start, -, hbucket⟩ := Option.bind_eq_some_iff.mp hbucket
        exact (Cron.Schedule.latestBetween?_latest hs hbucket).1
    split at h
    · cases h
    · rename_i hother
      obtain rfl := Option.some.inj h
      exact ⟨hother, fire, hlatest, rfl⟩

/-- A due slot is later than the slot that fired last, if that was the slot of a fire time. -/
theorem lt_dueSlot? (hs : s.fields.Ordered) (h : j.dueSlot? s now = some slot) {fired : Instant}
    (hfired : s.Fires fired) (hreached : fired ≤ now)
    (hlast : j.lastFiredSlot = some (s.slotOf fired)) : s.slotOf fired < slot := by
  obtain ⟨hother, fire, hlatest, rfl⟩ := dueSlot?_latest hs h
  have hle := s.slotOf_le (hlatest.latest fired hfired hreached)
  exact lt_of_le_of_ne hle fun heq => hother (hlast.trans (congrArg some heq))

theorem dueSlot?_of_latest (hs : s.fields.Ordered) (hactive : j.isActive = true)
    {start fire : Instant} (hlatest : s.Latest now fire)
    (hstart : now.shift? (-s.granularity.unit) = some start)
    (hreaches : start.seconds < fire.seconds) (harmed : j.armedAt.seconds < fire.seconds)
    (hyear : Date.yearStart 0 * 86400 ≤ start.seconds) :
    j.dueSlot? s now =
      if j.lastFiredSlot = some (s.slotOf fire) then none else some (s.slotOf fire) := by
  have hwindowed (t : Instant) (ht : j.windowedFire? s now = some t) : t = fire :=
    (windowedFire?_latest hs ht).eq hlatest
  have hbucket : j.bucketFire? s now = some fire := by
    have hsince : (Instant.later start j.armedAt).seconds < fire.seconds := by
      unfold Instant.later
      split
      · exact harmed
      · exact hreaches
    have hle : start ≤ Instant.later start j.armedAt := by
      unfold Instant.later
      split
      · assumption
      · exact le_refl _
    rw [Instant.le_iff] at hle
    simp only [bucketFire?, hstart, Option.bind_eq_bind, Option.bind_some]
    exact Cron.Schedule.latestBetween?_eq hs hlatest hsince (by omega)
  have hfire : (j.windowedFire? s now).or (j.bucketFire? s now) = some fire := by
    rw [hbucket]
    cases ht : j.windowedFire? s now with
    | none => rfl
    | some t => rw [hwindowed t ht, Option.some_or]
  have hremoved : ¬ j.removed = true := by simpa [isActive] using hactive
  rw [dueSlot?, if_neg hremoved]
  simp only [hfire]
  rfl

/-- Once its slot is noted, a job is no longer due at the same time: every look sees the same fire
time. -/
theorem dueSlot?_markFired (hs : s.fields.Ordered) (h : j.dueSlot? s now = some slot) :
    (j.markFired slot).dueSlot? s now = none := by
  obtain ⟨-, fire, hlatest, rfl⟩ := dueSlot?_latest hs h
  rw [Option.eq_none_iff_forall_ne_some]
  intro other hother
  obtain ⟨hne, fire', hlatest', rfl⟩ := dueSlot?_latest hs hother
  rw [hlatest'.eq hlatest] at hne
  exact hne rfl

theorem mem_dueSlots {jobs : List JobRecord} {name : String} :
    (name, slot) ∈ dueSlots jobs now ↔ ∃ j ∈ jobs, j.name = name ∧ j.isActive = true ∧
      ∃ s, Cron.Schedule.parse j.cron = .ok s ∧ j.dueSlot? s now = some slot := by
  rw [dueSlots, List.mem_filterMap]
  refine exists_congr fun j => and_congr_right fun _ => ?_
  cases hactive : j.isActive with
  | false => simp
  | true =>
      cases hparse : Cron.Schedule.parse j.cron with
      | error fault => simp
      | ok s => simp [and_left_comm]

theorem dueSlots_names (jobs : List JobRecord) (now : Instant) :
    ((dueSlots jobs now).map (·.1)).Sublist (jobs.map (·.name)) := by
  induction jobs with
  | nil => exact .slnil
  | cons j jobs ih =>
      rw [dueSlots, List.filterMap_cons]
      split
      · exact ih.cons j.name
      · rename_i due hdue
        have hname : due.1 = j.name := by
          split at hdue
          · cases hdue
          · split at hdue
            · cases hdue
            · obtain ⟨slot, -, rfl⟩ := Option.map_eq_some_iff.mp hdue
              rfl
        rw [List.map_cons, List.map_cons, hname]
        exact ih.cons_cons j.name

end WorkQueue.JobRecord
