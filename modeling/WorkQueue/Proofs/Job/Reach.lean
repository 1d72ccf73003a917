import Mathlib
import WorkQueue.Proofs.Job.Pace

/-! # When a job is due

A job looks back through its pending window, and where that finds nothing through the current
bucket, from the time it was armed on. Either look sees the latest fire time up to now or none at
all. So a job is due just when one of the two reaches the latest fire time and the slot of it did
not fire last.
-/

namespace WorkQueue

namespace Cron.Schedule

/-- Fire times can be searched from an instant on: the second after it lies in a year that is not
negative. -/
def Searchable (since : Instant) : Prop :=
  0 ≤ (Date.ofDayNumber ((since.seconds + 1) / 86400)).year

variable {s : Schedule} {since now fire : Instant}

theorem searchable_iff : Searchable since ↔ Date.yearStart 0 * 86400 ≤ since.seconds + 1 := by
  rw [Searchable, Date.year_nonneg_iff]
  omega

theorem Fires.lt_iff (h : s.Fires fire) : since < fire ↔ since.seconds < fire.seconds := by
  simp [Instant.lt_iff, h.1]

theorem latestBetween?_searchable (h : s.latestBetween? since now = some fire) :
    Searchable since := by
  rw [searchable_iff]
  simp only [latestBetween?] at h
  split at h
  · cases h
  · obtain ⟨start, hstart, -⟩ := Option.bind_eq_some_iff.mp h
    simp only [startAfter?] at hstart
    split at hstart
    · cases hstart
    · omega

theorem latestBetween?_eq_some_iff (hs : s.fields.Ordered) :
    s.latestBetween? since now = some fire ↔
      s.Latest now fire ∧ Searchable since ∧ since < fire := by
  constructor
  · intro h
    obtain ⟨hlatest, hlt⟩ := latestBetween?_latest hs h
    exact ⟨hlatest, latestBetween?_searchable h, hlt⟩
  · rintro ⟨hlatest, hyear, hlt⟩
    exact latestBetween?_eq hs hlatest (hlatest.fires.lt_iff.mp hlt) (searchable_iff.mp hyear)

theorem slotOf_le_self (s : Schedule) (t : Instant) : s.slotOf t ≤ t := by
  obtain ⟨hseconds, hnanos⟩ := s.granularity.truncate_parts t
  have := s.granularity.unitSeconds_bounds
  rw [slotOf, Instant.le_iff, hseconds, hnanos]
  have := Int.emod_nonneg t.seconds (b := s.granularity.unitSeconds) (by omega)
  omega

end Cron.Schedule

namespace JobRecord

open Cron.Schedule (Searchable)

/-- The window is pending and starts before a fire time, at an instant that fire times can be
searched from. -/
def WindowReaches (j : JobRecord) (now fire : Instant) : Prop :=
  j.windowPending = true ∧ ∃ window span since, j.window = some window ∧
    Span.ofDuration? window = some span ∧ now.shift? (-span) = some since ∧
      Searchable since ∧ since < fire

/-- The bucket that ends now, or what is left of it since the job was armed, starts before a fire
time. -/
def BucketReaches (j : JobRecord) (s : Cron.Schedule) (now fire : Instant) : Prop :=
  ∃ start, now.shift? (-s.granularity.unit) = some start ∧ max start j.armedAt < fire

variable {j : JobRecord} {s : Cron.Schedule} {now slot fire : Instant}

theorem windowedFire?_eq_some_iff (hs : s.fields.Ordered) :
    j.windowedFire? s now = some fire ↔ s.Latest now fire ∧ j.WindowReaches now fire := by
  simp only [windowedFire?, WindowReaches, Cron.Schedule.latestAtOrBefore?, Option.bind_eq_bind]
  cases j.windowPending with
  | false => simp
  | true =>
      simp only [if_true, Option.bind_eq_some_iff, Cron.Schedule.latestBetween?_eq_some_iff hs]
      grind

theorem bucketFire?_eq_some_iff (hs : s.fields.Ordered) :
    j.bucketFire? s now = some fire ↔ s.Latest now fire ∧ j.BucketReaches s now fire := by
  have hlater (a : Instant) : Instant.later a j.armedAt = max a j.armedAt := rfl
  simp only [bucketFire?, BucketReaches, Option.bind_eq_bind, Option.bind_eq_some_iff, hlater,
    Cron.Schedule.latestBetween?_eq_some_iff hs]
  constructor
  · rintro ⟨start, hstart, hlatest, -, hlt⟩
    exact ⟨hlatest, start, hstart, hlt⟩
  · rintro ⟨hlatest, start, hstart, hlt⟩
    refine ⟨start, hstart, hlatest, ?_, hlt⟩
    -- fire times lie in 1970 or later, and a bucket is a minute at most
    obtain ⟨hpos, hunit⟩ := s.granularity.unitSeconds_bounds
    obtain ⟨hfirst, -⟩ := hlatest.fires.2.bounds hs
    have hnow := Instant.le_iff.mp hlatest.reached
    obtain ⟨start', hstart', hfar⟩ :=
      Instant.exists_back hpos hunit s.granularity.unit_nanos (b := now) (by omega)
    obtain rfl := Option.some.inj (hstart.symm.trans hstart')
    have hle := Instant.le_iff.mp (le_max_left start j.armedAt)
    have hyear : Date.yearStart 0 * 86400 ≤ -60 := by decide
    rw [Cron.Schedule.searchable_iff]
    omega

/-- Both looks see the same fire time, so it does not matter which of them finds it. -/
theorem seenFire?_eq_some_iff (hs : s.fields.Ordered) :
    (j.windowedFire? s now).or (j.bucketFire? s now) = some fire ↔
      s.Latest now fire ∧ (j.WindowReaches now fire ∨ j.BucketReaches s now fire) := by
  rw [Option.or_eq_some_iff, bucketFire?_eq_some_iff hs, windowedFire?_eq_some_iff hs]
  constructor
  · rintro (⟨hlatest, hwindow⟩ | ⟨-, hlatest, hbucket⟩)
    · exact ⟨hlatest, .inl hwindow⟩
    · exact ⟨hlatest, .inr hbucket⟩
  · rintro ⟨hlatest, hreaches⟩
    cases hseen : j.windowedFire? s now with
    | none =>
        refine .inr ⟨rfl, hlatest, hreaches.resolve_left fun hwindow => ?_⟩
        simp [(windowedFire?_eq_some_iff hs).mpr ⟨hlatest, hwindow⟩] at hseen
    | some other =>
        obtain ⟨hother, hwindow⟩ := (windowedFire?_eq_some_iff hs).mp hseen
        rw [hother.eq hlatest] at hwindow
        exact .inl ⟨hlatest, hwindow⟩

theorem dueSlot?_eq_some_iff (hs : s.fields.Ordered) :
    j.dueSlot? s now = some slot ↔ j.removed = false ∧ ∃ fire, s.Latest now fire ∧
      slot = s.slotOf fire ∧ j.lastFiredSlot ≠ some slot ∧
        (j.WindowReaches now fire ∨ j.BucketReaches s now fire) := by
  have hdue : j.dueSlot? s now = some slot ↔ j.removed = false ∧ ∃ fire,
      (j.windowedFire? s now).or (j.bucketFire? s now) = some fire ∧
        slot = s.slotOf fire ∧ j.lastFiredSlot ≠ some slot := by
    cases hremoved : j.removed with
    | true => simp [dueSlot?, hremoved]
    | false =>
        simp only [dueSlot?, hremoved, Bool.false_eq_true, if_false, Option.bind_eq_bind,
          Option.bind_eq_some_iff, true_and]
        grind
  simp only [hdue, seenFire?_eq_some_iff hs]
  grind

/-- A window whose start is no instant is as good as none. -/
theorem windowedFire?_unusable
    (h : ∀ window ∈ j.window, ∀ span ∈ Span.ofDuration? window, now.shift? (-span) = none) :
    j.windowedFire? s now = none := by
  rw [Option.eq_none_iff_forall_ne_some]
  intro fire hfire
  simp only [windowedFire?, Option.bind_eq_bind] at hfire
  split at hfire
  · obtain ⟨window, hwindow, hfire⟩ := Option.bind_eq_some_iff.mp hfire
    obtain ⟨span, hspan, hfire⟩ := Option.bind_eq_some_iff.mp hfire
    obtain ⟨since, hsince, -⟩ := Option.bind_eq_some_iff.mp hfire
    simp [h window hwindow span hspan] at hsince
  · cases hfire

theorem dueSlot?_unusable
    (h : ∀ window ∈ j.window, ∀ span ∈ Span.ofDuration? window, now.shift? (-span) = none) :
    j.dueSlot? s now = { j with windowPending := false }.dueSlot? s now := by
  have hunpended : { j with windowPending := false }.windowedFire? s now = none := rfl
  rw [dueSlot?, dueSlot?, windowedFire?_unusable h, hunpended]
  rfl

theorem BucketReaches.armed_lt (h : j.BucketReaches s now fire) : j.armedAt < fire := by
  obtain ⟨start, -, hlt⟩ := h
  exact (le_max_right _ _).trans_lt hlt

/-- A slot is due just when it is the slot of the latest fire time up to now, did not fire last, and
the pending window or the current bucket reaches that fire time. So no due slot lies ahead, a fire
time from before the job was armed is due by its window alone, and a window that starts at no
instant changes nothing. -/
theorem due_iff_reached {cron : String} (hparse : Cron.Schedule.parse cron = .ok s)
    (j : JobRecord) (now slot : Instant) :
    (j.dueSlot? s now = some slot ↔ j.removed = false ∧ ∃ fire, s.Latest now fire ∧
      slot = s.slotOf fire ∧ j.lastFiredSlot ≠ some slot ∧
        (j.WindowReaches now fire ∨ j.BucketReaches s now fire)) ∧
    (j.dueSlot? s now = some slot → slot ≤ now ∧
      ∀ fire, s.Latest now fire → fire ≤ j.armedAt → j.WindowReaches now fire) ∧
    ((∀ window ∈ j.window, ∀ span ∈ Span.ofDuration? window, now.shift? (-span) = none) →
      j.dueSlot? s now = { j with windowPending := false }.dueSlot? s now) := by
  have hiff : j.dueSlot? s now = some slot ↔ _ :=
    dueSlot?_eq_some_iff (Cron.Schedule.parse_ordered hparse)
  refine ⟨hiff, fun hdue => ?_, dueSlot?_unusable⟩
  obtain ⟨-, seen, hseen, rfl, -, hreaches⟩ := hiff.mp hdue
  constructor
  · exact (s.slotOf_le_self seen).trans hseen.reached
  · intro fire hfire harmed
    obtain rfl := hfire.eq hseen
    apply hreaches.resolve_right
    intro hbucket
    exact absurd hbucket.armed_lt (not_lt.mpr harmed)

/-- Armed ten seconds after the full minute, a job fires for that minute only by its window. -/
theorem due_by_window :
    let job : JobRecord :=
      { JobRecord.make "report" "0 * * * * *" (some ⟨40, 0, by decide⟩) ⟨10, 0, by decide⟩ with
        lastFiredSlot := some ⟨-60, 0, by decide⟩ }
    let now : Instant := ⟨10, 500000000, by decide⟩
    ∃ cs, Cron.Schedule.parse job.cron = .ok cs ∧ job.dueSlot? cs now = some .epoch ∧
      ∀ fire, cs.Latest now fire → job.WindowReaches now fire := by
  intro job now
  obtain ⟨cs, hparse⟩ : ∃ cs, Cron.Schedule.parse job.cron = .ok cs := by
    match h : Cron.Schedule.parse job.cron with
    | .ok cs => exact ⟨cs, rfl⟩
    | .error fault =>
        have hread : (Cron.Schedule.parse job.cron).toOption.isSome = true := by decide +kernel
        rw [h] at hread
        cases hread
  have hrun : (Cron.Schedule.parse job.cron).toOption.map
      (fun cs => (job.windowedFire? cs now, job.dueSlot? cs now)) =
        some (some .epoch, some .epoch) := by decide +kernel
  rw [hparse] at hrun
  obtain ⟨hwindowed, hdue⟩ := Prod.mk.inj (Option.some.inj hrun)
  obtain ⟨-, hwindow, -⟩ := due_iff_reached hparse job now .epoch
  refine ⟨cs, hparse, hdue, fun fire hfire => (hwindow hdue).2 fire hfire ?_⟩
  rw [hfire.eq (windowedFire?_latest (Cron.Schedule.parse_ordered hparse) hwindowed)]
  decide

end JobRecord

end WorkQueue
