import Mathlib
import WorkQueue.Calendar

/-! # Days and dates

Every day number has a date of the calendar that gives the number back, and a later day has a later
date. Years are found from an estimate, so the bounds of a year carry both facts.
-/

namespace WorkQueue.Date

theorem yearStart_succ (y : Int) : yearStart (y + 1) = yearStart y + yearLength y := by
  by_cases hleap : isLeapYear y
  · simp only [yearLength, hleap, if_true]
    simp only [isLeapYear, Bool.and_eq_true, Bool.or_eq_true, decide_eq_true_eq, bne_iff_ne]
      at hleap
    simp only [yearStart]
    omega
  · simp only [yearLength, hleap, Bool.false_eq_true, if_false]
    simp only [isLeapYear, Bool.and_eq_true, Bool.or_eq_true, decide_eq_true_eq, bne_iff_ne]
      at hleap
    simp only [yearStart]
    omega

theorem yearStart_yearOf_le (day : Int) : yearStart (yearOf day) ≤ day := by
  simp only [yearOf]
  split
  · simp only [yearStart] at *
    omega
  · split
    · assumption
    · omega

theorem lt_yearStart_yearOf (day : Int) : day < yearStart (yearOf day + 1) := by
  simp only [yearOf]
  split
  · simpa using ‹_›
  · split
    · simp only [yearStart] at *
      omega
    · omega

theorem le_placeIn (lengths : List Nat) (month n : Nat) : month ≤ (placeIn lengths month n).1 := by
  induction lengths generalizing month n with
  | nil => exact Nat.le_refl _
  | cons len rest ih =>
      simp only [placeIn]
      split
      · exact Nat.le_refl _
      · exact Nat.le_of_succ_le (ih (month + 1) (n - len))

theorem placeIn_day_pos (lengths : List Nat) (month n : Nat) : 1 ≤ (placeIn lengths month n).2 := by
  induction lengths generalizing month n with
  | nil => simp [placeIn]
  | cons len rest ih =>
      simp only [placeIn]
      split
      · simp
      · exact ih (month + 1) (n - len)

theorem placeIn_sum {lengths : List Nat} {n : Nat} (month : Nat) (h : n < lengths.sum) :
    (lengths.take ((placeIn lengths month n).1 - month)).sum + ((placeIn lengths month n).2 - 1)
      = n := by
  induction lengths generalizing month n with
  | nil => simp at h
  | cons len rest ih =>
      simp only [placeIn]
      split
      · simp
      · rename_i hge
        simp only [List.sum_cons] at h
        have later := le_placeIn rest (month + 1) (n - len)
        have inner := ih (n := n - len) (month + 1) (by omega)
        obtain ⟨k, hk⟩ := Nat.exists_eq_add_of_le later
        rw [hk, Nat.add_sub_cancel_left] at inner
        rw [hk, show month + 1 + k - month = k + 1 by omega, List.take_succ_cons, List.sum_cons]
        omega

theorem placeIn_in_month {lengths : List Nat} {n : Nat} (month : Nat) (h : n < lengths.sum) :
    ∃ len, lengths[(placeIn lengths month n).1 - month]? = some len ∧
      (placeIn lengths month n).2 ≤ len := by
  induction lengths generalizing month n with
  | nil => simp at h
  | cons len rest ih =>
      simp only [placeIn]
      split
      · exact ⟨len, by simp, by omega⟩
      · simp only [List.sum_cons] at h
        obtain ⟨l, hl, hle⟩ := ih (n := n - len) (month + 1) (by omega)
        obtain ⟨k, hk⟩ := Nat.exists_eq_add_of_le (le_placeIn rest (month + 1) (n - len))
        refine ⟨l, ?_, hle⟩
        rw [hk, Nat.add_sub_cancel_left] at hl
        rw [hk, show month + 1 + k - month = k + 1 by omega]
        exact hl

theorem placeIn_lt (lengths : List Nat) (month : Nat) {n n' : Nat} (h : n < n') :
    (placeIn lengths month n).1 < (placeIn lengths month n').1 ∨
      (placeIn lengths month n).1 = (placeIn lengths month n').1 ∧
        (placeIn lengths month n).2 < (placeIn lengths month n').2 := by
  induction lengths generalizing month n n' with
  | nil => exact .inr ⟨rfl, by simpa [placeIn] using h⟩
  | cons len rest ih =>
      simp only [placeIn]
      by_cases hn : n < len
      · by_cases hn' : n' < len
        · simp [hn, hn', h]
        · have := le_placeIn rest (month + 1) (n' - len)
          simp only [hn, hn', if_true, if_false]
          omega
      · have hn' : ¬n' < len := by omega
        simp only [hn, hn', if_false]
        exact ih (month + 1) (by omega)

theorem monthLengths_sum (leap : Bool) : (monthLengths leap).sum = if leap then 366 else 365 := by
  cases leap <;> rfl

theorem monthLengths_length (leap : Bool) : (monthLengths leap).length = 12 := by
  cases leap <;> rfl

/-- The number of the day in its year, from zero. -/
def dayOfYear (day : Int) : Nat := (day - yearStart (yearOf day)).toNat

theorem yearStart_add_dayOfYear (day : Int) : yearStart (yearOf day) + dayOfYear day = day := by
  have := yearStart_yearOf_le day
  simp only [dayOfYear]
  omega

theorem dayOfYear_lt (day : Int) :
    dayOfYear day < (monthLengths (isLeapYear (yearOf day))).sum := by
  have start := yearStart_add_dayOfYear day
  have next := lt_yearStart_yearOf day
  rw [yearStart_succ, yearLength] at next
  rw [monthLengths_sum]
  omega

theorem ofDayNumber_eq (day : Int) :
    ofDayNumber day =
      ⟨yearOf day, (placeIn (monthLengths (isLeapYear (yearOf day))) 1 (dayOfYear day)).1,
        (placeIn (monthLengths (isLeapYear (yearOf day))) 1 (dayOfYear day)).2⟩ := rfl

theorem daysBefore_eq (leap : Bool) (m : Nat) :
    daysBefore leap m = ((monthLengths leap).take (m - 1)).sum := by
  rw [daysBefore, List.sum_eq_foldl]

theorem dayNumber_ofDayNumber (day : Int) : (ofDayNumber day).dayNumber = day := by
  have place := placeIn_sum 1 (dayOfYear_lt day)
  have start := yearStart_add_dayOfYear day
  simp only [ofDayNumber_eq, dayNumber, daysBefore_eq, place]
  exact start

theorem monthLength_eq {y : Int} {m len : Nat} (hm : 1 ≤ m)
    (h : (monthLengths (isLeapYear y))[m - 1]? = some len) : monthLength y m = len := by
  rw [monthLength, if_neg (by omega), h, Option.getD_some]

theorem ofDayNumber_exists (day : Int) : (ofDayNumber day).Exists := by
  obtain ⟨len, hlen, hle⟩ := placeIn_in_month 1 (dayOfYear_lt day)
  have first := le_placeIn (monthLengths (isLeapYear (yearOf day))) 1 (dayOfYear day)
  obtain ⟨inside, -⟩ := List.getElem?_eq_some_iff.mp hlen
  rw [monthLengths_length] at inside
  rw [ofDayNumber_eq]
  exact ⟨first, by simp only; omega, placeIn_day_pos _ _ _, (monthLength_eq first hlen).symm ▸ hle⟩

/-- Comes first by year, then by month, then by day. -/
def Earlier (a b : Date) : Prop :=
  a.year < b.year ∨ a.year = b.year ∧ (a.month < b.month ∨ a.month = b.month ∧ a.day < b.day)

theorem yearStart_le {y y' : Int} (h : y ≤ y') : yearStart y ≤ yearStart y' := by
  simp only [yearStart]
  omega

theorem yearOf_le {day day' : Int} (h : day ≤ day') : yearOf day ≤ yearOf day' := by
  have low := yearStart_yearOf_le day
  have high := lt_yearStart_yearOf day'
  by_contra hlt
  have hnext : yearOf day' + 1 ≤ yearOf day := by omega
  have := yearStart_le hnext
  omega

theorem ofDayNumber_earlier {day day' : Int} (h : day < day') :
    (ofDayNumber day).Earlier (ofDayNumber day') := by
  rcases Int.lt_or_eq_of_le (yearOf_le (Int.le_of_lt h)) with hyear | hyear
  · exact .inl hyear
  · have hlt : dayOfYear day < dayOfYear day' := by
      have start := yearStart_add_dayOfYear day
      have start' := yearStart_add_dayOfYear day'
      rw [← hyear] at start'
      omega
    refine .inr ⟨hyear, ?_⟩
    simp only [ofDayNumber_eq, ← hyear]
    exact placeIn_lt _ 1 hlt

theorem year_nonneg_iff {day : Int} : 0 ≤ (ofDayNumber day).year ↔ yearStart 0 ≤ day := by
  have hlow := yearStart_yearOf_le day
  have hhigh := lt_yearStart_yearOf day
  rw [ofDayNumber_eq]
  constructor
  · intro hyear
    exact (yearStart_le hyear).trans hlow
  · intro hday
    by_contra hyear
    have hnext : yearOf day + 1 ≤ 0 := by simp at hyear; omega
    have := yearStart_le hnext
    omega

end WorkQueue.Date
