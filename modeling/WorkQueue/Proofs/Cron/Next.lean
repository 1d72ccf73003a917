import Mathlib
import WorkQueue.Proofs.Cron.Search

/-! # The next fire time

The search forwards finds the least fire time from a second on, and nothing only where nothing fires
any more. With the search backwards it pins both ends of what fires in a range of instants. A fire
time is told by the parts of its date and of its time of day.
-/

namespace WorkQueue.Cron

namespace Fields

variable {f : Fields}

theorem least_nextDay? (f : Fields) (count : Nat) (day : Int) :
    Least (fun d => f.matchesDay d = true ∧ day ≤ d ∧ d < day + count) (f.nextDay? count day) := by
  induction count generalizing day with
  | zero =>
      intro d hd
      omega
  | succ count ih =>
      unfold nextDay?
      split
      · rename_i hmatches
        exact ⟨⟨hmatches, le_rfl, by omega⟩, fun d hd => hd.2.1⟩
      · rename_i hmiss
        refine (ih (day + 1)).congr fun d => ?_
        constructor
        · rintro ⟨hd, hlow, hhigh⟩
          have hne : d ≠ day := fun heq => hmiss (heq ▸ hd)
          exact ⟨hd, by omega, by omega⟩
        · rintro ⟨hd, hlow, hhigh⟩
          exact ⟨hd, by omega, by omega⟩

theorem least_onDay (hf : f.Ordered) {day : Int} (hday : f.matchesDay day = true) (start : Nat) :
    Least (fun t => f.Fires t ∧ t / 86400 = day ∧ day * 86400 + start ≤ t)
      ((f.firstTime? start).map fun t : Nat => day * 86400 + (t : Int)) := by
  have htime := f.least_firstTime? hf start
  cases hfound : f.firstTime? start with
  | none =>
      rw [hfound] at htime
      rintro t ⟨⟨-, hmatches⟩, hsame, hle⟩
      exact htime _ ⟨hmatches, by omega⟩
  | some n =>
      rw [hfound] at htime
      obtain ⟨⟨hmatches, hle⟩, hleast⟩ := htime
      obtain ⟨hfires, hsame⟩ := fires_onDay hf hday hmatches
      rw [Option.map_some]
      refine ⟨⟨hfires, hsame, by omega⟩, ?_⟩
      rintro u ⟨⟨-, hu⟩, hday', hle'⟩
      have := hleast _ ⟨hu, by omega⟩
      omega

/-- The first fire time on the day of `start`, from it on. -/
def onDayFrom? (f : Fields) (start : Int) : Option Int :=
  (if f.matchesDay (start / 86400) then f.firstTime? (start % 86400).toNat else none).map
    fun t : Nat => start / 86400 * 86400 + (t : Int)

/-- The first fire time after a day. -/
def afterDay? (f : Fields) (day : Int) : Option Int := do
  let day ← f.nextDay? (lastDay - day).toNat (day + 1)
  let t ← f.firstTime? 0
  some (day * 86400 + t)

theorem nextFrom?_eq (f : Fields) (second : Int) :
    f.nextFrom? second =
      (f.onDayFrom? (max second 0)).or (f.afterDay? (max second 0 / 86400)) := by
  unfold nextFrom? onDayFrom?
  dsimp only
  cases if f.matchesDay (max second 0 / 86400) then
      f.firstTime? (max second 0 % 86400).toNat else none with
  | some t => rfl
  | none => rfl

theorem least_onDayFrom? (hf : f.Ordered) (start : Int) :
    Least (fun t => f.Fires t ∧ t / 86400 = start / 86400 ∧ start ≤ t) (f.onDayFrom? start) := by
  have hsplit : start / 86400 * 86400 + (start % 86400).toNat = start := by omega
  unfold onDayFrom?
  split
  · rename_i hday
    refine (f.least_onDay hf hday (start % 86400).toNat).congr fun t => ?_
    rw [hsplit]
  · rename_i hday
    rintro t ⟨⟨hmatches, -⟩, hsame, -⟩
    exact hday (hsame ▸ hmatches)

theorem least_afterDay? (hf : f.Ordered) (day : Int) :
    Least (fun t => f.Fires t ∧ day < t / 86400) (f.afterDay? day) := by
  have hdays := f.least_nextDay? (lastDay - day).toNat (day + 1)
  -- no day after the last one of 2100 matches
  have hwithin {u : Int} (hu : f.Fires u) (hlater : day < u / 86400) :
      f.matchesDay (u / 86400) = true ∧ day + 1 ≤ u / 86400 ∧
        u / 86400 < day + 1 + (lastDay - day).toNat := by
    have := (hu.bounds hf).2
    exact ⟨hu.1, by omega, by omega⟩
  unfold afterDay?
  cases hday : f.nextDay? (lastDay - day).toNat (day + 1) with
  | none =>
      rw [hday] at hdays
      rintro u ⟨hu, hlater⟩
      exact hdays _ (hwithin hu hlater)
  | some d =>
      rw [hday] at hdays
      obtain ⟨⟨hmatches, hlow, -⟩, hleast⟩ := hdays
      have htimes := f.least_firstTime? hf 0
      cases htime : f.firstTime? 0 with
      | none =>
          rw [htime] at htimes
          rintro u ⟨hu, -⟩
          exact htimes (u % 86400).toNat ⟨hu.2, by omega⟩
      | some n =>
          have hfirst := f.least_onDay hf hmatches 0
          rw [htime, Option.map_some] at hfirst
          obtain ⟨⟨hfires, hsame, -⟩, hleast'⟩ := hfirst
          refine ⟨⟨hfires, by omega⟩, ?_⟩
          rintro u ⟨hu, hlater⟩
          have hday' := hleast _ (hwithin hu hlater)
          by_cases hd : u / 86400 = d
          · exact hleast' u ⟨hu, hd, by omega⟩
          · omega

/-- The day of the first second holds the least fire time, or else a day after it. -/
theorem least_nextFrom? (hf : f.Ordered) (second : Int) :
    Least (fun t => f.Fires t ∧ second ≤ t) (f.nextFrom? second) := by
  have htoday := f.least_onDayFrom? hf (max second 0)
  have hlater := f.least_afterDay? hf (max second 0 / 86400)
  have hfrom {u : Int} (hu : f.Fires u) (hle : second ≤ u) : max second 0 ≤ u :=
    max_le hle (hu.bounds hf).1
  rw [nextFrom?_eq]
  cases hfound : f.onDayFrom? (max second 0) with
  | some t =>
      rw [hfound] at htoday
      obtain ⟨⟨hfires, hsame, hle⟩, hleast⟩ := htoday
      refine ⟨⟨hfires, (le_max_left _ _).trans hle⟩, ?_⟩
      rintro u ⟨hu, hule⟩
      have := hfrom hu hule
      by_cases hday : u / 86400 = max second 0 / 86400
      · exact hleast u ⟨hu, hday, this⟩
      · omega
  | none =>
      rw [hfound] at htoday
      rw [Option.none_or]
      refine hlater.congr fun u => ?_
      constructor
      · rintro ⟨hu, hule⟩
        have := hfrom hu hule
        have hday : u / 86400 ≠ max second 0 / 86400 := fun hsame => htoday u ⟨hu, hsame, this⟩
        exact ⟨hu, by omega⟩
      · rintro ⟨hu, hday⟩
        exact ⟨hu, by omega⟩

end Fields

namespace Schedule

variable {s : Schedule} {t since now : Instant}

/-- A whole second whose parts lie in the fields. -/
structure Matches (s : Schedule) (t : Instant) : Prop where
  whole : t.nanos = 0
  second : t.secondOfDay % 60 ∈ s.fields.seconds
  minute : t.secondOfDay / 60 % 60 ∈ s.fields.minutes
  hour : t.secondOfDay / 3600 ∈ s.fields.hours
  dayOfMonth : t.date.day ∈ s.fields.daysOfMonth
  month : t.date.month ∈ s.fields.months
  dayOfWeek : Date.weekday t.day ∈ s.fields.daysOfWeek
  year : ∃ year ∈ s.fields.years, t.date.year = (year : Int)

theorem fires_iff_matches : s.Fires t ↔ s.Matches t := by
  simp only [Fires, Fields.Fires, Fields.matchesDay, Fields.matchesTime, Bool.and_eq_true,
    decide_eq_true_eq, List.contains_iff_mem]
  constructor
  · rintro ⟨hwhole, ⟨⟨⟨⟨hpos, hyear⟩, hmonth⟩, hday⟩, hweekday⟩, ⟨hhour, hminute⟩, hsecond⟩
    exact ⟨hwhole, hsecond, hminute, hhour, hday, hmonth, hweekday, _, hyear,
      (Int.toNat_of_nonneg hpos).symm⟩
  · rintro ⟨hwhole, hsecond, hminute, hhour, hday, hmonth, hweekday, year, hyear, heq⟩
    have heq' : (Date.ofDayNumber (t.seconds / 86400)).year = (year : Int) := heq
    refine ⟨hwhole, ⟨⟨⟨⟨?_, ?_⟩, hmonth⟩, hday⟩, hweekday⟩, ⟨hhour, hminute⟩, hsecond⟩
    · omega
    · rw [heq', Int.toNat_natCast]
      exact hyear

/-! ## From seconds to instants -/

theorem fires_valid (hs : s.fields.Ordered) {second : Int} (h : s.fields.Fires second) :
    Instant.Valid second 0 := by
  have hlast : Fields.lastDay = 47846 := by decide
  obtain ⟨hfirst, hle⟩ := h.bounds hs
  simp only [Instant.Valid, nanosPerSecond]
  omega

theorem least_instant {q : Int → Prop} {r : Option Int} (hs : s.fields.Ordered)
    (h : Least (fun second => s.fields.Fires second ∧ q second) r) :
    Least (fun f => s.Fires f ∧ q f.seconds) (r.bind fun second => Instant.make? second 0) := by
  cases r with
  | none => exact fun f hf => h f.seconds ⟨hf.1.2, hf.2⟩
  | some second =>
      obtain ⟨⟨hfires, hq⟩, hleast⟩ := h
      rw [Option.bind_some, Instant.make?, dif_pos (fires_valid hs hfires)]
      refine ⟨⟨⟨rfl, hfires⟩, hq⟩, fun f hf => ?_⟩
      have hle := hleast f.seconds ⟨hf.1.2, hf.2⟩
      rw [Instant.le_iff]
      dsimp only
      omega

theorem greatest_instant {q : Int → Prop} {r : Option Int} (hs : s.fields.Ordered)
    (h : Greatest (fun second => s.fields.Fires second ∧ q second) r) :
    Greatest (fun f => s.Fires f ∧ q f.seconds) (r.bind fun second => Instant.make? second 0) := by
  cases r with
  | none => exact fun f hf => h f.seconds ⟨hf.1.2, hf.2⟩
  | some second =>
      obtain ⟨⟨hfires, hq⟩, hgreatest⟩ := h
      rw [Option.bind_some, Instant.make?, dif_pos (fires_valid hs hfires)]
      refine ⟨⟨⟨rfl, hfires⟩, hq⟩, fun f hf => ?_⟩
      have hle := hgreatest f.seconds ⟨hf.1.2, hf.2⟩
      have hnanos := hf.1.1
      rw [Instant.le_iff]
      dsimp only
      omega

theorem startAfter?_eq (hyear : 0 ≤ t.date.year) : startAfter? t = some (t.seconds + 1) := by
  have hday := Date.year_nonneg_iff.mp hyear
  rw [Instant.day] at hday
  rw [startAfter?, if_neg (by omega)]

theorem least_nextAfter? (hs : s.fields.Ordered) (hyear : 0 ≤ t.date.year) :
    Least (fun f => s.Fires f ∧ t < f) (s.nextAfter? t) := by
  have hsearch : s.nextAfter? t =
      (s.fields.nextFrom? (t.seconds + 1)).bind fun second => Instant.make? second 0 := by
    rw [nextAfter?, startAfter?_eq hyear]
    rfl
  rw [hsearch]
  refine (least_instant hs (s.fields.least_nextFrom? hs (t.seconds + 1))).congr fun f => ?_
  refine and_congr_right fun hf => ?_
  have := hf.1
  rw [Instant.lt_iff]
  omega

theorem greatest_latestBetween? (hs : s.fields.Ordered) (hyear : 0 ≤ since.date.year) :
    Greatest (fun f => s.Fires f ∧ since < f ∧ f ≤ now) (s.latestBetween? since now) := by
  by_cases hempty : now ≤ since
  · have hsearch : s.latestBetween? since now = none := by
      rw [latestBetween?, if_pos hempty]
      rfl
    rw [hsearch]
    rintro f ⟨-, hlow, hhigh⟩
    exact absurd (hlow.trans_le hhigh) (not_lt.mpr hempty)
  · have hsearch : s.latestBetween? since now =
        (s.fields.latestWithin? (since.seconds + 1) now.seconds).bind fun second =>
          Instant.make? second 0 := by
      simp only [latestBetween?, if_neg hempty, startAfter?_eq hyear]
      rfl
    rw [hsearch]
    refine (greatest_instant hs (s.fields.greatest_latestWithin? hs (since.seconds + 1)
      now.seconds)).congr fun f => ?_
    refine and_congr_right fun hf => ?_
    have := hf.1
    rw [Instant.lt_iff, Instant.le_iff]
    omega

/-- From an instant on, the search forwards finds the least second that matches, and up to any other
instant the search backwards finds the greatest one. Nothing is found just when nothing matches. -/
theorem search_exact {expression : String} (hparse : parse expression = .ok s)
    (hyear : 0 ≤ t.date.year) (now : Instant) :
    Least (fun f => s.Matches f ∧ t < f) (s.nextAfter? t) ∧
      Greatest (fun f => s.Matches f ∧ t < f ∧ f ≤ now) (s.latestBetween? t now) := by
  have hs := parse_ordered hparse
  exact ⟨(least_nextAfter? hs hyear).congr fun f => by rw [fires_iff_matches],
    (greatest_latestBetween? hs hyear).congr fun f => by rw [fires_iff_matches]⟩

/-- After the 31st of January the next 31st is that of March, and in April there is none. -/
theorem search_exact_longMonths :
    let t : Instant := ⟨4105080000, 500000000, by decide⟩
    let now : Instant := ⟨4112809200, 0, by decide⟩
    let found : Instant := ⟨4110177600, 0, by decide⟩
    ∃ s, parse "0 0 12 31 * ?" = .ok s ∧ 0 ≤ t.date.year ∧
      s.nextAfter? t = some found ∧ s.latestBetween? t now = some found ∧
      Least (fun f => s.Matches f ∧ t < f) (s.nextAfter? t) ∧
        Greatest (fun f => s.Matches f ∧ t < f ∧ f ≤ now) (s.latestBetween? t now) := by
  intro t now found
  obtain ⟨s, hparse⟩ : ∃ s, parse "0 0 12 31 * ?" = .ok s := by
    match h : parse "0 0 12 31 * ?" with
    | .ok s => exact ⟨s, rfl⟩
    | .error fault =>
        have hread : (parse "0 0 12 31 * ?").toOption.isSome = true := by decide +kernel
        rw [h] at hread
        cases hread
  have hrun : (parse "0 0 12 31 * ?").toOption.map
      (fun s => (s.nextAfter? t, s.latestBetween? t now)) = some (some found, some found) := by
    decide +kernel
  have hfound : (s.nextAfter? t, s.latestBetween? t now) = (some found, some found) := by
    rw [hparse] at hrun
    exact Option.some.inj hrun
  obtain ⟨hnext, hlatest⟩ := Prod.mk.inj hfound
  have hyear : 0 ≤ t.date.year := by decide +kernel
  exact ⟨s, hparse, hyear, hnext, hlatest, search_exact hparse hyear now⟩

end Schedule

end WorkQueue.Cron
