import Mathlib
import WorkQueue.Proofs.Job.Reach

/-! # Windows that look alike

A window is told by the fire times that it covers. An empty window covers none, and neither does one
that is longer than from the last instant back to the year 0. Any two other windows cover different
fire times, and one schedule that fires once is enough to tell them apart.
-/

namespace WorkQueue

namespace Instant

/-- The last instant, in nanoseconds since 1970. -/
def last : Int := 8210266876799 * 1000000000 + 1999999999

theorem position_le_last (t : Instant) : t.position [] ≤ last := by
  have hvalid := t.valid
  simp only [Valid, nanosPerSecond] at hvalid
  rw [position_nil, last]
  omega

theorem epoch_le_iff {t : Instant} : epoch ≤ t ↔ 0 ≤ t.seconds := by
  rw [le_iff]
  simp only [epoch]
  omega

/-- The last second is prolonged, so every number of nanoseconds up to it is that of an instant. -/
theorem exists_position {n : Int} (hpos : 0 ≤ n) (hlast : n ≤ last) :
    ∃ t : Instant, epoch ≤ t ∧ t.position [] = n := by
  rw [last] at hlast
  by_cases hwhole : n < 8210266876800 * 1000000000
  · have hvalid : Valid (n / 1000000000) (n % 1000000000).toNat := by
      simp only [Valid, nanosPerSecond]
      omega
    refine ⟨⟨_, _, hvalid⟩, ?_, ?_⟩
    · rw [epoch_le_iff]
      simp only
      omega
    · rw [position_nil]
      simp only
      omega
  · have hvalid : Valid 8210266876799 (n - 8210266876799 * 1000000000).toNat := by
      simp only [Valid, nanosPerSecond]
      omega
    refine ⟨⟨_, _, hvalid⟩, ?_, ?_⟩
    · rw [epoch_le_iff]
      simp
    · rw [position_nil]
      simp only
      omega

end Instant

namespace Duration

open Cron.Schedule (Searchable)

variable {d d' : Duration} {now fire : Instant}

/-- Looking back by the length from now on, the fire time is seen. -/
def Covers (d : Duration) (now fire : Instant) : Prop :=
  ∃ span since, Span.ofDuration? d = some span ∧ now.shift? (-span) = some since ∧
    Searchable since ∧ since < fire

/-- From 1970 back to the second before the year 0, in nanoseconds. -/
def toYearZero : Int := 62167219201 * 1000000000

/-- The length is not empty, and from some instant it does not reach back to before the year 0. -/
def Useful (d : Duration) : Prop := 0 < d.toNanos ∧ d.toNanos ≤ Instant.last + toYearZero

instance (d : Duration) : Decidable d.Useful := inferInstanceAs (Decidable (_ ∧ _))

theorem searchable_iff_seconds {since : Instant} :
    Searchable since ↔ -62167219201 ≤ since.seconds := by
  have hstart : Date.yearStart 0 * 86400 = -62167219200 := by decide
  rw [Cron.Schedule.searchable_iff, hstart]
  omega

theorem Covers.useful (h : d.Covers now fire) (hreached : fire ≤ now) : d.Useful := by
  obtain ⟨span, since, hspan, hsince, hyear, hlt⟩ := h
  have hnanos := Instant.ofDuration?_nanos hspan
  have hlast := now.position_le_last
  have hlow := hlt.trans_le hreached
  rw [searchable_iff_seconds] at hyear
  rw [Instant.lt_iff] at hlow
  rw [Instant.position_nil, Instant.last] at hlast
  simp only [Useful, Instant.last, toYearZero]
  rcases Instant.shift?_back (by omega) hsince with hback | hback <;> omega

theorem covers_epoch_iff (hnow : .epoch ≤ now) : d.Covers now .epoch ↔
    now.position [] < d.toNanos ∧ d.toNanos ≤ now.position [] + toYearZero := by
  have hvalid := now.valid
  simp only [Instant.Valid, nanosPerSecond] at hvalid
  rw [Instant.epoch_le_iff] at hnow
  have hlast := now.position_le_last
  simp only [Instant.position_nil, Instant.last, toYearZero] at *
  constructor
  · rintro ⟨span, since, hspan, hsince, hyear, hlt⟩
    have hnanos := Instant.ofDuration?_nanos hspan
    rw [searchable_iff_seconds] at hyear
    simp only [Instant.lt_iff, Instant.epoch] at hlt
    rcases Instant.shift?_back (by omega) hsince with hback | hback <;> omega
  · rintro ⟨hover, hwithin⟩
    have hspan : -maxSpanNanos ≤ (d.toNanos : Int) ∧ (d.toNanos : Int) ≤ maxSpanNanos := by
      simp only [maxSpanNanos]
      omega
    have hback : now.shift? (-⟨d.toNanos, hspan⟩) ≠ none := by
      rw [Ne, Instant.shift?_back_eq_none_iff (by simp), Instant.position_nil, Instant.first]
      simp only
      omega
    obtain ⟨since, hsince⟩ := Option.ne_none_iff_exists'.mp hback
    refine ⟨_, since, dif_pos hspan, hsince, ?_, ?_⟩
    · rw [searchable_iff_seconds]
      rcases Instant.shift?_back (by simp) hsince with hback | hback <;>
        simp only at hback <;> omega
    · simp only [Instant.lt_iff, Instant.epoch]
      rcases Instant.shift?_back (by simp) hsince with hback | hback <;>
        simp only at hback <;> omega

theorem exists_separating {a b : Int} (limit length : Int) (hlength : 0 < length)
    (hle : length ≤ limit) (hlt : a < b)
    (hreach : 0 < a ∧ a ≤ limit + length ∨ 0 < b ∧ b ≤ limit + length) :
    ∃ n, 0 ≤ n ∧ n ≤ limit ∧ ¬ (n < a ∧ a ≤ n + length ↔ n < b ∧ b ≤ n + length) := by
  -- an interval that starts with `b`, ends with it or ends before it, or one around `a`
  by_cases hlong : b ≤ limit + length
  · by_cases hnear : b - 1 ≤ limit
    · exact ⟨max (b - 1) 0, by omega, by omega, by omega⟩
    · by_cases hfar : a ≤ b - length
      · exact ⟨b - length, by omega, by omega, by omega⟩
      · exact ⟨b - length - 1, by omega, by omega, by omega⟩
  · exact ⟨min limit (a - 1), by omega, by omega, by omega⟩

/-- Of two lengths one of which is useful, some instant tells the one from the other. -/
theorem exists_apart (hne : d ≠ d') (huseful : d.Useful ∨ d'.Useful) :
    ∃ now : Instant, .epoch ≤ now ∧ ¬ (d.Covers now .epoch ↔ d'.Covers now .epoch) := by
  wlog hlt : d.toNanos < d'.toNanos generalizing d d'
  · have hdiff : d.toNanos ≠ d'.toNanos := fun h => hne (toNanos_inj.mp h)
    obtain ⟨now, hnow, hapart⟩ := this hne.symm huseful.symm (by omega)
    exact ⟨now, hnow, fun h => hapart h.symm⟩
  -- the lengths that reach 1970 from an instant, and not too far, make an interval
  obtain ⟨n, hpos, hlast, hapart⟩ := exists_separating (a := d.toNanos) (b := d'.toNanos)
    Instant.last toYearZero (by decide) (by decide) (by omega)
    (huseful.imp (And.imp_left Int.ofNat_lt.mpr) (And.imp_left Int.ofNat_lt.mpr))
  obtain ⟨now, hnow, rfl⟩ := Instant.exists_position hpos hlast
  rw [← covers_epoch_iff hnow, ← covers_epoch_iff hnow] at hapart
  exact ⟨now, hnow, hapart⟩

end Duration

namespace Cron.Schedule

theorem exists_parsed {α : Type} {cron : String} {f : Schedule → α} {a : α}
    (h : (parse cron).toOption.map f = some a) : ∃ s, parse cron = .ok s ∧ f s = a := by
  cases hparse : parse cron with
  | error fault =>
      rw [hparse] at h
      cases h
  | ok s =>
      rw [hparse] at h
      exact ⟨s, rfl, Option.some.inj h⟩

theorem exists_once : ∃ cron s, parse cron = .ok s ∧
    ∀ now, .epoch ≤ now → s.Latest now .epoch := by
  have hread : (parse "0 0 0 1 1 * 1970").toOption.map (·.fields) =
      some ⟨[0], [0], [0], [1], [1], [1, 2, 3, 4, 5, 6, 7], [1970]⟩ := by decide +kernel
  obtain ⟨s, hparse, hfields⟩ := exists_parsed hread
  refine ⟨_, s, hparse, fun now hnow => ⟨⟨rfl, ?_⟩, hnow, fun f hf _ => ?_⟩⟩
  · rw [hfields]
    decide
  · obtain ⟨hnanos, hday, htime⟩ := hf
    rw [hfields] at hday htime
    simp only [Fields.matchesDay, Fields.matchesTime, Bool.and_eq_true, List.contains_iff_mem,
      List.mem_singleton, decide_eq_true_eq] at hday htime
    obtain ⟨⟨⟨⟨hpos, hyear⟩, hmonth⟩, hdate⟩, -⟩ := hday
    have hnumber : (Date.ofDayNumber (f.seconds / 86400)).dayNumber = 0 := by
      have hfirst : Date.ofDayNumber (f.seconds / 86400) = ⟨1970, 1, 1⟩ := by
        cases hd : Date.ofDayNumber (f.seconds / 86400)
        simp only [hd] at hpos hyear hmonth hdate
        subst hmonth hdate
        congr 1
        omega
      rw [hfirst]
      decide
    rw [Date.dayNumber_ofDayNumber] at hnumber
    rw [Instant.le_iff]
    simp only [Instant.epoch]
    omega

end Cron.Schedule

namespace JobRecord

variable {j : JobRecord} {s : Cron.Schedule} {now fire : Instant}

theorem windowReaches_iff : j.WindowReaches now fire ↔
    j.windowPending = true ∧ ∃ d ∈ j.window, d.Covers now fire := by
  simp only [WindowReaches, Duration.Covers, Option.mem_def]
  grind

theorem dueSlot?_useless (hs : s.fields.Ordered) (h : ∀ d ∈ j.window, ¬ d.Useful) :
    j.dueSlot? s now = { j with window := none }.dueSlot? s now := by
  have hnone : j.windowedFire? s now = none := by
    rw [Option.eq_none_iff_forall_ne_some]
    intro fire hfire
    obtain ⟨hlatest, hreaches⟩ := (windowedFire?_eq_some_iff hs).mp hfire
    obtain ⟨-, d, hd, hcovers⟩ := windowReaches_iff.mp hreaches
    exact h d hd (hcovers.useful hlatest.reached)
  have hwithout : { j with window := none }.windowedFire? s now = none :=
    windowedFire?_unusable nofun
  rw [dueSlot?, dueSlot?, hnone, hwithout]
  rfl

theorem dueSlot?_once_iff (hs : s.fields.Ordered) (honce : s.Latest now .epoch) (name cron : String)
    (d : Duration) : (make name cron (some d) .epoch).dueSlot? s now = some (s.slotOf .epoch) ↔
      d.Covers now .epoch := by
  rw [dueSlot?_eq_some_iff hs]
  constructor
  · rintro ⟨-, fire, hfire, -, -, hreaches⟩
    obtain rfl := hfire.eq honce
    rcases hreaches with hwindow | hbucket
    · obtain ⟨-, d', hd', hcovers⟩ := windowReaches_iff.mp hwindow
      obtain rfl := Option.some.inj hd'
      exact hcovers
    · exact absurd hbucket.armed_lt (lt_irrefl _)
  · intro hcovers
    exact ⟨rfl, .epoch, honce, rfl, nofun, .inl (windowReaches_iff.mpr ⟨rfl, d, rfl, hcovers⟩)⟩

/-- Of two windows one of which is useful, some schedule and clock tell the one from the other. -/
theorem exists_due_apart {d d' : Duration} (hne : d ≠ d') (huseful : d.Useful ∨ d'.Useful) :
    ∃ cron s now, Cron.Schedule.parse cron = .ok s ∧
      (make "once" cron (some d) .epoch).dueSlot? s now ≠
        (make "once" cron (some d') .epoch).dueSlot? s now := by
  obtain ⟨now, hnow, hapart⟩ := Duration.exists_apart hne huseful
  obtain ⟨cron, s, hparse, honce⟩ := Cron.Schedule.exists_once
  have hdue := dueSlot?_once_iff (Cron.Schedule.parse_ordered hparse) (honce now hnow) "once" cron
  refine ⟨cron, s, now, hparse, fun hsame => hapart ?_⟩
  rw [← hdue d, ← hdue d', hsame]

theorem dueSlot?_useless_congr {d d' : Duration} (hs : s.fields.Ordered) (h : ¬ d.Useful)
    (h' : ¬ d'.Useful) :
    { j with window := some d }.dueSlot? s now = { j with window := some d' }.dueSlot? s now := by
  have hnone (d : Duration) (h : ¬ d.Useful) : { j with window := some d }.dueSlot? s now =
      { j with window := none }.dueSlot? s now :=
    dueSlot?_useless hs fun _ hd => Option.some.inj hd ▸ h
  rw [hnone d h, hnone d' h']

end JobRecord

end WorkQueue
