import Mathlib
import WorkQueue.Cron.Search
import WorkQueue.Proofs.Calendar
import WorkQueue.Proofs.Cron.Values
import WorkQueue.Proofs.Instant.Elapsed

/-! # The latest fire time

The search backwards finds the greatest fire time of a range, and nothing only where nothing fires.
Within a day the hours, the minutes and the seconds are those of one list of matching seconds that
ascends, so the first hit from its end is the greatest, and the first hit from its front the least.
-/

namespace WorkQueue.Cron

/-- The greatest value with a property, none if no value has it. -/
def Greatest {α : Type} [LE α] (p : α → Prop) : Option α → Prop
  | some a => p a ∧ ∀ b, p b → b ≤ a
  | none => ∀ b, ¬ p b

/-- The least value with a property, none if no value has it. -/
def Least {α : Type} [LE α] (p : α → Prop) : Option α → Prop
  | some a => p a ∧ ∀ b, p b → a ≤ b
  | none => ∀ b, ¬ p b

theorem Greatest.congr {α : Type} [LE α] {p q : α → Prop} {r : Option α} (h : Greatest p r)
    (hpq : ∀ a, q a ↔ p a) : Greatest q r := by
  have : q = p := funext fun a => propext (hpq a)
  rwa [this]

theorem Least.congr {α : Type} [LE α] {p q : α → Prop} {r : Option α} (h : Least p r)
    (hpq : ∀ a, q a ↔ p a) : Least q r := by
  have : q = p := funext fun a => propext (hpq a)
  rwa [this]

theorem Least.dual {α : Type} [LE α] {p : α → Prop} {r : Option α}
    (h : @Least αᵒᵈ _ p r) : Greatest p r := by
  cases r with
  | none => exact h
  | some a => exact h

theorem least_find? {α : Type} [Preorder α] {l : List α} (h : l.Pairwise (· < ·)) (p : α → Bool) :
    Least (fun a => a ∈ l ∧ p a = true) (l.find? p) := by
  cases hfind : l.find? p with
  | none =>
      rintro a ⟨ha, hp⟩
      exact List.find?_eq_none.mp hfind a ha hp
  | some a =>
      obtain ⟨hp, before, after, rfl, hbefore⟩ := List.find?_eq_some_iff_append.mp hfind
      refine ⟨⟨by simp, hp⟩, ?_⟩
      rintro b ⟨hb, hpb⟩
      rcases List.mem_append.mp hb with hb | hb
      · have := hbefore b hb
        simp [hpb] at this
      · rcases List.mem_cons.mp hb with rfl | hb
        · exact le_refl _
        · exact (List.rel_of_pairwise_cons (List.pairwise_append.mp h).2.1 hb).le

theorem greatest_find? {α : Type} [Preorder α] {l : List α} (h : l.Pairwise (· > ·))
    (p : α → Bool) : Greatest (fun a => a ∈ l ∧ p a = true) (l.find? p) :=
  @Least.dual α _ _ _ (@least_find? αᵒᵈ _ l h p)

theorem findSome?_skip {ι α : Type} {parts : List ι} (late : ι → Prop) [DecidablePred late]
    {search : ι → Option α} (h : ∀ n ∈ parts, late n → search n = none) :
    (parts.findSome? fun n => if late n then none else search n) = parts.findSome? search := by
  induction parts with
  | nil => rfl
  | cons n parts ih =>
      have hself : (if late n then none else search n) = search n :=
        ite_eq_right_iff.mpr fun hlate => (h n List.mem_cons_self hlate).symm
      rw [List.findSome?_cons, List.findSome?_cons, hself,
        ih fun m hm => h m (List.mem_cons_of_mem n hm)]

namespace Fields

variable {f : Fields}

/-! ## Within a day -/

/-- The matching seconds of a day. -/
def times (f : Fields) : List Nat :=
  f.hours.flatMap fun h => f.minutes.flatMap fun m => f.seconds.map (secondAt h m)

theorem times_ascending (hf : f.Ordered) : f.times.Pairwise (· < ·) := by
  have hsecond {s : Nat} (h : s ∈ f.seconds) : s ≤ 59 := (hf.seconds.within s h).2
  have hminute {m : Nat} (h : m ∈ f.minutes) : m ≤ 59 := (hf.minutes.within m h).2
  refine List.pairwise_flatMap.mpr ⟨fun h _ => List.pairwise_flatMap.mpr ⟨fun m _ => ?_, ?_⟩, ?_⟩
  · exact hf.seconds.ascending.map _ fun s s' hlt => by simp only [secondAt]; omega
  · refine hf.minutes.ascending.imp_of_mem ?_
    intro m m' hm hm' hlt t ht t' ht'
    obtain ⟨s, hs, rfl⟩ := List.mem_map.mp ht
    obtain ⟨s', hs', rfl⟩ := List.mem_map.mp ht'
    have := hsecond hs
    simp only [secondAt]
    omega
  · refine hf.hours.ascending.imp_of_mem ?_
    intro h h' hm hm' hlt t ht t' ht'
    simp only [List.mem_flatMap, List.mem_map] at ht ht'
    obtain ⟨m, hm, s, hs, rfl⟩ := ht
    obtain ⟨m', hm', s', hs', rfl⟩ := ht'
    have := hsecond hs
    have := hminute hm
    simp only [secondAt]
    omega

theorem mem_times (hf : f.Ordered) {t : Nat} : t ∈ f.times ↔ f.matchesTime t = true := by
  simp only [matchesTime, Bool.and_eq_true, List.contains_iff_mem, times, List.mem_flatMap,
    List.mem_map, secondAt]
  constructor
  · rintro ⟨h, hh, m, hm, s, hs, rfl⟩
    have hm' : m ≤ 59 := (hf.minutes.within m hm).2
    have hs' : s ≤ 59 := (hf.seconds.within s hs).2
    have h1 : (h * 3600 + m * 60 + s) / 3600 = h := by omega
    have h2 : (h * 3600 + m * 60 + s) / 60 % 60 = m := by omega
    have h3 : (h * 3600 + m * 60 + s) % 60 = s := by omega
    rw [h1, h2, h3]
    exact ⟨⟨hh, hm⟩, hs⟩
  · rintro ⟨⟨hh, hm⟩, hs⟩
    exact ⟨_, hh, _, hm, _, hs, by omega⟩

theorem firstTime?_eq (hf : f.Ordered) (start : Nat) :
    f.firstTime? start = f.times.find? (start ≤ ·) := by
  have hminute (h m : Nat) (hlate : secondAt h m 59 < start) :
      (f.seconds.find? fun s => start ≤ secondAt h m s).map (secondAt h m) = none := by
    rw [Option.map_eq_none_iff, List.find?_eq_none]
    intro s hs hfits
    have hs' : s ≤ 59 := (hf.seconds.within s hs).2
    have hfits := of_decide_eq_true hfits
    simp only [secondAt] at hlate hfits
    omega
  have hhour (h : Nat) (hlate : secondAt h 59 59 < start) :
      (f.minutes.findSome? fun m =>
        (f.seconds.find? fun s => start ≤ secondAt h m s).map (secondAt h m)) = none := by
    rw [List.findSome?_eq_none_iff]
    intro m hm
    have hm' : m ≤ 59 := (hf.minutes.within m hm).2
    apply hminute
    simp only [secondAt] at hlate ⊢
    omega
  have hskip (h : Nat) : (f.minutes.findSome? fun m => if secondAt h m 59 < start then none else
        (f.seconds.find? fun s => start ≤ secondAt h m s).map (secondAt h m)) =
      f.minutes.findSome? fun m =>
        (f.seconds.find? fun s => start ≤ secondAt h m s).map (secondAt h m) :=
    findSome?_skip (fun m => secondAt h m 59 < start) fun m _ => hminute h m
  simp only [firstTime?, hskip]
  rw [findSome?_skip (fun h => secondAt h 59 59 < start) fun h _ => hhour h]
  simp only [times, List.find?_flatMap, List.find?_map]
  rfl

theorem lastTime?_eq (f : Fields) (stop : Nat) :
    f.lastTime? stop = f.times.reverse.find? (· ≤ stop) := by
  have hminute (h m : Nat) (hlate : stop < secondAt h m 0) :
      (f.seconds.reverse.find? fun s => secondAt h m s ≤ stop).map (secondAt h m) = none := by
    rw [Option.map_eq_none_iff, List.find?_eq_none]
    intro s _ hfits
    have hfits := of_decide_eq_true hfits
    simp only [secondAt] at hlate hfits
    omega
  have hhour (h : Nat) (hlate : stop < secondAt h 0 0) :
      (f.minutes.reverse.findSome? fun m =>
        (f.seconds.reverse.find? fun s => secondAt h m s ≤ stop).map (secondAt h m)) = none := by
    rw [List.findSome?_eq_none_iff]
    intro m _
    refine hminute h m (hlate.trans_le ?_)
    simp only [secondAt]
    omega
  have hskip (h : Nat) :
      (f.minutes.reverse.findSome? fun m => if stop < secondAt h m 0 then none else
        (f.seconds.reverse.find? fun s => secondAt h m s ≤ stop).map (secondAt h m)) =
      f.minutes.reverse.findSome? fun m =>
        (f.seconds.reverse.find? fun s => secondAt h m s ≤ stop).map (secondAt h m) :=
    findSome?_skip (fun m => stop < secondAt h m 0) fun m _ => hminute h m
  simp only [lastTime?, hskip]
  rw [findSome?_skip (fun h => stop < secondAt h 0 0) fun h _ => hhour h]
  simp only [times, List.reverse_flatMap, Function.comp_def, List.find?_flatMap, List.find?_map,
    ← List.map_reverse]

theorem least_firstTime? (hf : f.Ordered) (start : Nat) :
    Least (fun t => f.matchesTime t = true ∧ start ≤ t) (f.firstTime? start) := by
  rw [firstTime?_eq hf]
  refine (least_find? (times_ascending hf) _).congr fun t => ?_
  rw [mem_times hf, decide_eq_true_eq]

theorem greatest_lastTime? (hf : f.Ordered) (stop : Nat) :
    Greatest (fun t => f.matchesTime t = true ∧ t ≤ stop) (f.lastTime? stop) := by
  rw [lastTime?_eq]
  refine (greatest_find? (List.pairwise_reverse.mpr (times_ascending hf)) _).congr fun t => ?_
  rw [List.mem_reverse, mem_times hf, decide_eq_true_eq]

/-! ## Over the days -/

theorem greatest_previousDay? (f : Fields) (count : Nat) (day : Int) :
    Greatest (fun d => f.matchesDay d = true ∧ day - count < d ∧ d ≤ day)
      (f.previousDay? count day) := by
  induction count generalizing day with
  | zero =>
      intro d hd
      omega
  | succ count ih =>
      unfold previousDay?
      split
      · rename_i hmatches
        exact ⟨⟨hmatches, by omega, le_rfl⟩, fun d hd => hd.2.2⟩
      · rename_i hmiss
        refine (ih (day - 1)).congr fun d => ?_
        constructor
        · rintro ⟨hd, hlow, hhigh⟩
          have hne : d ≠ day := fun heq => hmiss (heq ▸ hd)
          exact ⟨hd, by omega, by omega⟩
        · rintro ⟨hd, hlow, hhigh⟩
          exact ⟨hd, by omega, by omega⟩

theorem fires_onDay (hf : f.Ordered) {day : Int} (hday : f.matchesDay day = true) {n : Nat}
    (hmatches : f.matchesTime n = true) :
    f.Fires (day * 86400 + n) ∧ (day * 86400 + (n : Int)) / 86400 = day := by
  have hn : n < 86400 := by
    have hhour := hmatches
    simp only [matchesTime, Bool.and_eq_true, List.contains_iff_mem] at hhour
    have : n / 3600 ≤ 23 := (hf.hours.within _ hhour.1.1).2
    omega
  have hsame : (day * 86400 + (n : Int)) / 86400 = day := by omega
  have hrest : ((day * 86400 + (n : Int)) % 86400).toNat = n := by omega
  refine ⟨?_, hsame⟩
  rw [Fires, hsame, hrest]
  exact ⟨hday, hmatches⟩

theorem greatest_onDay (hf : f.Ordered) {day : Int} (hday : f.matchesDay day = true) (stop : Nat) :
    Greatest (fun t => f.Fires t ∧ t / 86400 = day ∧ t ≤ day * 86400 + stop)
      ((f.lastTime? stop).map fun t : Nat => day * 86400 + (t : Int)) := by
  have htime := f.greatest_lastTime? hf stop
  cases hfound : f.lastTime? stop with
  | none =>
      rw [hfound] at htime
      rintro t ⟨⟨-, hmatches⟩, hsame, hle⟩
      exact htime _ ⟨hmatches, by omega⟩
  | some n =>
      rw [hfound] at htime
      obtain ⟨⟨hmatches, hle⟩, hgreatest⟩ := htime
      obtain ⟨hfires, hsame⟩ := fires_onDay hf hday hmatches
      rw [Option.map_some]
      refine ⟨⟨hfires, hsame, by omega⟩, ?_⟩
      rintro u ⟨⟨-, hu⟩, hday', hle'⟩
      have := hgreatest _ ⟨hu, by omega⟩
      omega

theorem Fires.bounds (hf : f.Ordered) {t : Int} (h : f.Fires t) :
    0 ≤ t ∧ t ≤ lastDay * 86400 + 86399 := by
  have hday := h.1
  simp only [matchesDay, Bool.and_eq_true, decide_eq_true_eq, List.contains_iff_mem] at hday
  obtain ⟨⟨⟨⟨-, hlisted⟩, -⟩, -⟩, -⟩ := hday
  obtain ⟨hfirst, hlast⟩ := hf.years.within _ hlisted
  change 1970 ≤ (Date.yearOf (t / 86400)).toNat at hfirst
  change (Date.yearOf (t / 86400)).toNat ≤ 2100 at hlast
  have hlow : Date.yearStart 1970 ≤ t / 86400 :=
    (Date.yearStart_le (by omega)).trans (Date.yearStart_yearOf_le _)
  have hhigh : t / 86400 < Date.yearStart 2101 :=
    (Date.lt_yearStart_yearOf _).trans_le (Date.yearStart_le (by omega))
  have h1970 : Date.yearStart 1970 = 0 := by decide
  have h2101 : Date.yearStart 2101 = lastDay + 1 := by decide
  omega

/-- The last fire time on the day of `stop`, up to it. -/
def onDayOf? (f : Fields) (stop : Int) : Option Int :=
  (if f.matchesDay (stop / 86400) then f.lastTime? (stop % 86400).toNat else none).map
    fun t : Nat => stop / 86400 * 86400 + (t : Int)

/-- The last fire time before a day, down to the day of `start`. -/
def beforeDay? (f : Fields) (start day : Int) : Option Int := do
  let day ← f.previousDay? (day - start / 86400).toNat (day - 1)
  let t ← f.lastTime? 86399
  some (day * 86400 + t)

theorem latestWithin?_eq (f : Fields) (start stop : Int) :
    f.latestWithin? start stop =
      ((f.onDayOf? (min stop (lastDay * 86400 + 86399))).or
        (f.beforeDay? (max start 0) (min stop (lastDay * 86400 + 86399) / 86400))).filter
          (fun t => decide (max start 0 ≤ t)) := by
  unfold latestWithin? onDayOf?
  dsimp only
  cases if f.matchesDay (min stop (lastDay * 86400 + 86399) / 86400) then
      f.lastTime? (min stop (lastDay * 86400 + 86399) % 86400).toNat else none with
  | some t => simp [Option.filter_some]
  | none =>
      rw [Option.map_none, Option.none_or]
      split
      · rename_i t ht
        have hfound : f.beforeDay? (max start 0) (min stop (lastDay * 86400 + 86399) / 86400) =
            some t := ht
        simp only [hfound, Option.filter_some, decide_eq_true_eq]
      · rename_i hnone
        have hfound : f.beforeDay? (max start 0) (min stop (lastDay * 86400 + 86399) / 86400) =
            none := hnone
        rw [hfound]
        rfl

theorem greatest_onDayOf? (hf : f.Ordered) (stop : Int) :
    Greatest (fun t => f.Fires t ∧ t / 86400 = stop / 86400 ∧ t ≤ stop) (f.onDayOf? stop) := by
  have hsplit : stop / 86400 * 86400 + (stop % 86400).toNat = stop := by omega
  unfold onDayOf?
  split
  · rename_i hday
    refine (f.greatest_onDay hf hday (stop % 86400).toNat).congr fun t => ?_
    rw [hsplit]
  · rename_i hday
    rintro t ⟨⟨hmatches, -⟩, hsame, -⟩
    exact hday (hsame ▸ hmatches)

/-- What is found before a day is later than all other fire times before it, and nothing is found
only if there are none down to the day of `start`. -/
theorem beforeDay?_latest (hf : f.Ordered) (start day : Int) :
    (∀ t, f.beforeDay? start day = some t →
      f.Fires t ∧ t / 86400 < day ∧ ∀ u, f.Fires u → u / 86400 < day → u ≤ t) ∧
    (f.beforeDay? start day = none → ∀ u, f.Fires u → start ≤ u → day ≤ u / 86400) := by
  have hdays := f.greatest_previousDay? (day - start / 86400).toNat (day - 1)
  unfold beforeDay?
  cases hday : f.previousDay? (day - start / 86400).toNat (day - 1) with
  | none =>
      rw [hday] at hdays
      refine ⟨fun t ht => (by cases ht), fun _ u hu hlow => ?_⟩
      by_contra hearlier
      exact hdays _ ⟨hu.1, by omega, by omega⟩
  | some d =>
      rw [hday] at hdays
      obtain ⟨⟨hmatches, hlow, hhigh⟩, hlatest⟩ := hdays
      have hlast := f.greatest_onDay hf hmatches 86399
      have htimes := f.greatest_lastTime? hf 86399
      cases htime : f.lastTime? 86399 with
      | none =>
          rw [htime] at htimes
          refine ⟨fun t ht => (by cases ht), fun _ u hu _ => ?_⟩
          exact absurd ⟨hu.2, by omega⟩ (htimes (u % 86400).toNat)
      | some n =>
          rw [htime, Option.map_some] at hlast
          obtain ⟨⟨hfires, hsame, -⟩, hgreatest⟩ := hlast
          refine ⟨fun t ht => ?_, fun h => (by cases h)⟩
          obtain rfl : d * 86400 + n = t := Option.some.inj ht
          refine ⟨hfires, by omega, fun u hu hearlier => ?_⟩
          have hday' : u / 86400 ≤ d := by
            by_contra hgt
            exact hgt (hlatest _ ⟨hu.1, by omega, by omega⟩)
          by_cases hd : u / 86400 = d
          · exact hgreatest u ⟨hu, hd, by omega⟩
          · omega

theorem onDayOf?_or_beforeDay?_latest (hf : f.Ordered) (start stop : Int) :
    (∀ t, (f.onDayOf? stop).or (f.beforeDay? start (stop / 86400)) = some t →
      f.Fires t ∧ t ≤ stop ∧ ∀ u, f.Fires u → u ≤ stop → u ≤ t) ∧
    ((f.onDayOf? stop).or (f.beforeDay? start (stop / 86400)) = none →
      ∀ u, f.Fires u → start ≤ u → stop < u) := by
  have htoday := f.greatest_onDayOf? hf stop
  obtain ⟨hsome, hnone⟩ := f.beforeDay?_latest hf start (stop / 86400)
  cases hfound : f.onDayOf? stop with
  | some t =>
      rw [hfound] at htoday
      obtain ⟨⟨hfires, hsame, hle⟩, hgreatest⟩ := htoday
      refine ⟨fun t' ht => ?_, fun h => by cases h⟩
      obtain rfl := Option.some.inj ht
      refine ⟨hfires, hle, fun u hu hule => ?_⟩
      by_cases hday : u / 86400 = stop / 86400
      · exact hgreatest u ⟨hu, hday, hule⟩
      · omega
  | none =>
      rw [hfound] at htoday
      -- nothing fires on the day of `stop`, so the latest fire time is on an earlier one
      have hearlier {u : Int} (hu : f.Fires u) (hule : u ≤ stop) : u / 86400 < stop / 86400 := by
        have : u / 86400 ≠ stop / 86400 := fun hsame => htoday u ⟨hu, hsame, hule⟩
        omega
      rw [Option.none_or]
      refine ⟨fun t ht => ?_, fun h u hu hlow => ?_⟩
      · obtain ⟨hfires, hday, hlatest⟩ := hsome t ht
        exact ⟨hfires, by omega, fun u hu hule => hlatest u hu (hearlier hu hule)⟩
      · by_contra hle
        have := hnone h u hu hlow
        have := hearlier hu (by omega)
        omega

theorem greatest_latestWithin? (hf : f.Ordered) (start stop : Int) :
    Greatest (fun t => f.Fires t ∧ start ≤ t ∧ t ≤ stop) (f.latestWithin? start stop) := by
  obtain ⟨hsome, hnone⟩ :=
    f.onDayOf?_or_beforeDay?_latest hf (max start 0) (min stop (lastDay * 86400 + 86399))
  rw [latestWithin?_eq]
  cases hfound : (f.onDayOf? (min stop (lastDay * 86400 + 86399))).or
      (f.beforeDay? (max start 0) (min stop (lastDay * 86400 + 86399) / 86400)) with
  | none =>
      rintro u ⟨hu, hlow, hhigh⟩
      obtain ⟨hfirst, hlast⟩ := hu.bounds hf
      have := hnone hfound u hu (max_le hlow hfirst)
      omega
  | some t =>
      obtain ⟨hfires, hle, hgreatest⟩ := hsome t hfound
      have hupTo {u : Int} (hu : f.Fires u) (hhigh : u ≤ stop) : u ≤ t :=
        hgreatest u hu (le_min hhigh (hu.bounds hf).2)
      rw [Option.filter_some]
      split
      · rename_i hlow
        have hlow := max_le_iff.mp (of_decide_eq_true hlow)
        exact ⟨⟨hfires, hlow.1, hle.trans (min_le_left _ _)⟩, fun u hu => hupTo hu.1 hu.2.2⟩
      · rename_i hlow
        rintro u ⟨hu, hlow', hhigh⟩
        have := hupTo hu hhigh
        obtain ⟨hfirst, -⟩ := hu.bounds hf
        exact hlow (decide_eq_true (max_le (hlow'.trans this) (hfirst.trans this)))

end Fields

namespace Schedule

/-- The fire time is the latest one that is not after `now`. -/
structure Latest (s : Schedule) (now fire : Instant) : Prop where
  fires : s.Fires fire
  reached : fire ≤ now
  latest : ∀ f, s.Fires f → f ≤ now → f ≤ fire

theorem latestBetween?_latest {s : Schedule} (hs : s.fields.Ordered) {since now t : Instant}
    (h : s.latestBetween? since now = some t) : s.Latest now t ∧ since < t := by
  unfold latestBetween? at h
  dsimp only at h
  split at h
  · cases h
  · obtain ⟨start, hstart, h⟩ := Option.bind_eq_some_iff.mp h
    obtain ⟨second, hsecond, h⟩ := Option.bind_eq_some_iff.mp h
    obtain ⟨hseconds, hnanos⟩ := Instant.make?_parts h
    have hlatest := s.fields.greatest_latestWithin? hs start now.seconds
    rw [hsecond] at hlatest
    obtain ⟨⟨hfires, hlow, hhigh⟩, hgreatest⟩ := hlatest
    have hafter : start = since.seconds + 1 := by
      unfold startAfter? at hstart
      split at hstart
      · cases hstart
      · exact (Option.some.inj hstart).symm
    refine ⟨⟨⟨hnanos, hseconds ▸ hfires⟩, ?_, fun u hu hle => ?_⟩, ?_⟩
    · rw [Instant.le_iff]
      omega
    · rw [Instant.le_iff] at hle ⊢
      rw [hu.1] at hle ⊢
      by_cases hearly : start ≤ u.seconds
      · have := hgreatest u.seconds ⟨hu.2, hearly, by omega⟩
        omega
      · omega
    · rw [Instant.lt_iff]
      omega

theorem latestAtOrBefore?_latest {s : Schedule} (hs : s.fields.Ordered) {now t : Instant}
    {lookback : Span} (h : s.latestAtOrBefore? now lookback = some t) : s.Latest now t := by
  obtain ⟨since, -, h⟩ := Option.bind_eq_some_iff.mp h
  exact (latestBetween?_latest hs h).1

theorem Latest.eq {s : Schedule} {now f g : Instant} (hf : s.Latest now f) (hg : s.Latest now g) :
    f = g :=
  le_antisymm (hg.latest f hf.fires hf.reached) (hf.latest g hg.fires hg.reached)

theorem latestBetween?_eq {s : Schedule} (hs : s.fields.Ordered) {since now fire : Instant}
    (h : s.Latest now fire) (hsince : since.seconds < fire.seconds)
    (hyear : Date.yearStart 0 * 86400 ≤ since.seconds + 1) :
    s.latestBetween? since now = some fire := by
  have hreached := Instant.le_iff.mp h.reached
  have hstarts : ¬ now ≤ since := by
    rw [Instant.le_iff]
    omega
  have hgreatest := s.fields.greatest_latestWithin? hs (since.seconds + 1) now.seconds
  have hwithin : s.fields.Fires fire.seconds ∧ since.seconds + 1 ≤ fire.seconds ∧
      fire.seconds ≤ now.seconds := ⟨h.fires.2, by omega, by omega⟩
  have hsearch : s.latestBetween? since now =
      (s.fields.latestWithin? (since.seconds + 1) now.seconds).bind fun second =>
        Instant.make? second 0 := by
    simp only [latestBetween?, startAfter?, if_neg hstarts, if_neg (not_lt.mpr hyear)]
    rfl
  rw [hsearch]
  cases hfound : s.fields.latestWithin? (since.seconds + 1) now.seconds with
  | none =>
      rw [hfound] at hgreatest
      exact absurd hwithin (hgreatest _)
  | some second =>
      rw [hfound] at hgreatest
      obtain ⟨⟨hfires, -, hhigh⟩, hlatest⟩ := hgreatest
      have hlow := hlatest fire.seconds hwithin
      have hvalid : Instant.Valid second 0 := by
        have hnow := now.valid
        have hfire := fire.valid
        simp only [Instant.Valid, nanosPerSecond] at *
        omega
      have hle : (⟨second, 0, hvalid⟩ : Instant) ≤ fire :=
        h.latest _ ⟨rfl, hfires⟩ (Instant.le_iff.mpr (by dsimp only; omega))
      have hsame : second = fire.seconds := by
        have := Instant.le_iff.mp hle
        dsimp only at this
        omega
      rw [Option.bind_some, Instant.make?, dif_pos hvalid]
      exact congrArg some (Instant.eq_of_parts hsame h.fires.1.symm)

end Schedule

end WorkQueue.Cron
