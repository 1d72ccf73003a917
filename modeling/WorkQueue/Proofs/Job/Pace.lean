import Mathlib
import WorkQueue.Proofs.Instant.Pace
import WorkQueue.Proofs.Job.Due

/-! # Jobs that are looked at regularly

The fire times of a schedule are at least as far apart as its bucket is wide, if buckets are seconds
or if they are minutes and one second is selected. A job that is looked at once in each width, from
the time it was armed on, is therefore due for every fire time when it is first looked at after it.
-/

namespace WorkQueue

namespace Cron

theorem Granularity.unit_nanos (g : Granularity) : g.unit.nanos = g.unitSeconds * 1000000000 := by
  cases g <;> rfl

theorem Granularity.unitSeconds_bounds (g : Granularity) :
    0 < g.unitSeconds ∧ g.unitSeconds ≤ 60 := by
  cases g <;> decide

namespace Schedule

/-- Buckets are seconds, or they are minutes and one second is selected. -/
def OncePerUnit (s : Schedule) : Prop :=
  s.granularity = .minute → s.fields.seconds.length = 1

variable {s : Schedule} {now start f g : Instant}

theorem OncePerUnit.eq_of_close (h : s.OncePerUnit) (hf : s.Fires f) (hg : s.Fires g)
    (hle : f.seconds ≤ g.seconds) (hclose : g.seconds < f.seconds + s.granularity.unitSeconds) :
    f = g := by
  apply Instant.eq_of_parts _ (hf.1.trans hg.1.symm)
  cases hunit : s.granularity with
  | second =>
      simp only [hunit, Granularity.unitSeconds] at hclose
      omega
  | minute =>
      obtain ⟨n, hn⟩ := List.length_eq_one_iff.mp (h hunit)
      have hf' := second_mem_of_fires hf.2
      have hg' := second_mem_of_fires hg.2
      rw [hn, List.mem_singleton] at hf' hg'
      simp only [hunit, Granularity.unitSeconds] at hclose
      omega

theorem OncePerUnit.latest (h : s.OncePerUnit) (hf : s.Fires f) (hreached : f ≤ now)
    (hbucket : now.seconds < f.seconds + s.granularity.unitSeconds) : s.Latest now f where
  fires := hf
  reached := hreached
  latest g hg hle := by
    rw [Instant.le_iff] at hle
    by_contra hlt
    rw [not_le, Instant.lt_iff, hf.1, hg.1] at hlt
    obtain rfl := h.eq_of_close hf hg (by omega) (by omega)
    omega

end Schedule

end Cron

namespace JobRecord

open Cron.Schedule (OncePerUnit)

variable {j : JobRecord} {s : Cron.Schedule} {before now f : Instant}

/-- A job is due for a fire time when it is looked at soon after a time before it. -/
theorem dueSlot?_within (hs : s.fields.Ordered) (honce : s.OncePerUnit)
    (hactive : j.isActive = true) (hpace : Instant.Within s.granularity.unit before now)
    (hbefore : before < f) (hf : s.Fires f) (hreached : f ≤ now) (harmed : j.armedAt < f) :
    j.dueSlot? s now =
      if j.lastFiredSlot = some (s.slotOf f) then none else some (s.slotOf f) := by
  obtain ⟨hpos, hunit⟩ := s.granularity.unitSeconds_bounds
  have hnanos := s.granularity.unit_nanos
  obtain ⟨hfirst, hlast⟩ := hf.2.bounds hs
  have hlastDay : Cron.Fields.lastDay = 47846 := by decide
  have hyear : Date.yearStart 0 * 86400 ≤ -60 := by decide
  have hnow := Instant.le_iff.mp hreached
  obtain ⟨start, hstart, hfar⟩ := Instant.exists_back hpos hunit hnanos (b := now) (by omega)
  have hreaches := hpace.back_lt hpos hnanos hbefore hf.1 (by omega) hstart
  rw [Instant.lt_iff, hf.1] at harmed
  exact dueSlot?_of_latest hs hactive (honce.latest hf hreached (by omega)) hstart hreaches
    (by omega) (by omega)

theorem exists_before {pace : Instant → Instant → Prop} {ticks : List Instant}
    (hpace : (before :: ticks).IsChain pace) (hbefore : before < f)
    (hfirst : ticks.find? (f ≤ ·) = some now) : ∃ t, t < f ∧ pace t now := by
  induction ticks generalizing before with
  | nil => cases hfirst
  | cons t rest ih =>
      obtain ⟨hstep, hrest⟩ := List.isChain_cons_cons.mp hpace
      rw [List.find?_cons] at hfirst
      split at hfirst
      · obtain rfl := Option.some.inj hfirst
        exact ⟨before, hbefore, hstep⟩
      · rename_i hearlier
        exact ih hrest (not_le.mp (of_decide_eq_false hearlier)) hfirst

end JobRecord

end WorkQueue
