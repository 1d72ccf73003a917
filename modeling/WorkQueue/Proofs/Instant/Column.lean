import Mathlib
import WorkQueue.Proofs.Calendar
import WorkQueue.Proofs.Instant.Order
import WorkQueue.Proofs.Text.Numeral
import WorkQueue.Store.Row

/-! # Instants in columns

The text of an instant in a column has a fixed width while the year has four digits. Such texts
compare as the instants do once they are cut to whole microseconds, and they read back cut.
-/

namespace WorkQueue.Instant

open Numeral

/-- The year is one of 0 to 9999, which are written with four digits and no sign. -/
def FourDigitYear (t : Instant) : Prop := 0 ≤ t.date.year ∧ t.date.year ≤ 9999

instance (t : Instant) : Decidable t.FourDigitYear := inferInstanceAs (Decidable (_ ∧ _))

theorem seconds_eq (t : Instant) : t.seconds = t.day * 86400 + t.secondOfDay := by
  simp only [day, secondOfDay]
  omega

theorem secondOfDay_lt (t : Instant) : t.secondOfDay < 86400 := by
  simp only [secondOfDay]
  omega

theorem leap_second {t : Instant} (h : nanosPerSecond ≤ t.nanos) : t.secondOfDay % 60 = 59 := by
  have := t.valid.2.2.2 h
  simp only [secondOfDay]
  omega

theorem micros_leap (t : Instant) :
    t.nanos / 1000 * 1000 / nanosPerSecond = t.nanos / nanosPerSecond := by
  simp only [nanosPerSecond]
  omega

theorem micros_text_seconds (t : Instant) : t.micros.text .seconds = t.text .seconds := by
  simp only [text, written, writtenTime, writtenFraction, date, day, secondOfDay, micros_seconds,
    micros_nanos, micros_leap]

theorem micros_column (t : Instant) : t.micros.column = t.column := by
  have hrest : t.nanos / 1000 * 1000 % nanosPerSecond / 1000 = t.nanos % nanosPerSecond / 1000 := by
    simp only [nanosPerSecond]; omega
  simp only [column, text, written, writtenTime, writtenFraction, date, day, secondOfDay,
    micros_seconds, micros_nanos, micros_leap, hrest]

theorem micros_fourDigitYear {t : Instant} (h : t.FourDigitYear) : t.micros.FourDigitYear := h

/-! ## Order -/

theorem written_parts {t : Instant} (h : t.FourDigitYear) :
    t.written .micros =
      fixed 10 4 t.date.year.toNat ++ '-' :: (fixed 10 2 t.date.month ++ '-' ::
        (fixed 10 2 t.date.day ++ 'T' :: (fixed 10 2 (t.secondOfDay / 3600) ++ ':' ::
          (fixed 10 2 (t.secondOfDay / 60 % 60) ++ ':' ::
            (fixed 10 2 (t.secondOfDay % 60 + t.nanos / nanosPerSecond) ++ '.' ::
              (fixed 10 6 (t.nanos % nanosPerSecond / 1000) ++ ['Z'])))))) := by
  obtain ⟨n, hn⟩ := Int.eq_ofNat_of_zero_le h.1
  have hlt : n < 10000 := by have := h.2; omega
  have hyear : writtenYear t.date.year = fixed 10 4 t.date.year.toNat := by
    rw [hn]
    exact if_pos hlt
  simp only [written, writtenDate, writtenTime, writtenFraction, hyear, List.append_assoc,
    List.cons_append]

theorem part_lt {width n n' : Nat} {u v : List Char}
    (h : n < n' ∧ n' < 10 ^ width ∨ n = n' ∧ u < v) :
    fixed 10 width n ++ u < fixed 10 width n' ++ v := by
  rcases h with ⟨hlt, hbound⟩ | ⟨rfl, huv⟩
  · exact lt_append (fixed_lt_fixed (by decide) (by decide) hlt hbound)
      (by simp only [fixed_length]) u v
  · exact List.append_left_lt huv

theorem cons_lt (c : Char) {u v : List Char} (h : u < v) : c :: u < c :: v :=
  List.cons_lt_cons_iff.mpr (.inr ⟨rfl, h⟩)

theorem month_day_bounds (t : Instant) :
    t.date.month < 100 ∧ t.date.day < 100 := by
  obtain ⟨-, hmonth, -, hday⟩ := Date.ofDayNumber_exists t.day
  have all : ∀ leap : Bool, ∀ m ∈ Date.monthLengths leap, m < 100 := by decide
  refine ⟨Nat.lt_of_le_of_lt hmonth (by decide), Nat.lt_of_le_of_lt hday ?_⟩
  simp only [Date.monthLength]
  split
  · decide
  · cases hm : (Date.monthLengths (Date.isLeapYear (Date.ofDayNumber t.day).year))[
        (Date.ofDayNumber t.day).month - 1]? with
    | none => decide
    | some len => exact all _ len (List.mem_of_getElem? hm)

theorem column_lt {a b : Instant} (ha : a.FourDigitYear) (hb : b.FourDigitYear)
    (h : a.micros < b.micros) : a.column < b.column := by
  rw [column, column, text, text, String.lt_iff_toList_lt, String.toList_ofList,
    String.toList_ofList, written_parts ha, written_parts hb]
  have hbounds := month_day_bounds b
  have hsa := a.seconds_eq
  have hsb := b.seconds_eq
  have hla := a.secondOfDay_lt
  have hlb := b.secondOfDay_lt
  have hna : a.nanos < 2 * nanosPerSecond := a.valid.2.2.1
  have hnb : b.nanos < 2 * nanosPerSecond := b.valid.2.2.1
  have hleapa := a.leap_second
  rw [micros_lt_iff] at h
  simp only [nanosPerSecond] at *
  rcases Int.lt_trichotomy a.day b.day with hday | hday | hday
  · have hdate : a.date.Earlier b.date := Date.ofDayNumber_earlier hday
    rcases hdate with hyear | ⟨hyear, hmonth | ⟨hmonth, hdayOf⟩⟩
    · exact part_lt (.inl ⟨by have := ha.1; omega, by have := hb.2; omega⟩)
    · refine part_lt (.inr ⟨by rw [hyear], cons_lt _ (part_lt (.inl ⟨hmonth, hbounds.1⟩))⟩)
    · refine part_lt (.inr ⟨by rw [hyear], cons_lt _ (part_lt (.inr ⟨hmonth, cons_lt _ ?_⟩))⟩)
      exact part_lt (.inl ⟨hdayOf, hbounds.2⟩)
  · have hdate : a.date = b.date := congrArg Date.ofDayNumber hday
    rw [hdate]
    refine part_lt (.inr ⟨rfl, cons_lt _ (part_lt (.inr ⟨rfl, cons_lt _ (part_lt
      (.inr ⟨rfl, cons_lt _ (part_lt ?_)⟩))⟩))⟩)
    -- the time of day: the first of hour, minute, second and fraction in which the two differ
    by_cases hhour : a.secondOfDay / 3600 = b.secondOfDay / 3600
    · refine .inr ⟨hhour, cons_lt _ (part_lt ?_)⟩
      by_cases hminute : a.secondOfDay / 60 % 60 = b.secondOfDay / 60 % 60
      · refine .inr ⟨hminute, cons_lt _ (part_lt ?_)⟩
        by_cases hsecond : a.secondOfDay % 60 + a.nanos / 1000000000 =
            b.secondOfDay % 60 + b.nanos / 1000000000
        · refine .inr ⟨hsecond, cons_lt _ (part_lt (.inl ?_))⟩
          omega
        · refine .inl ?_
          omega
      · refine .inl ?_
        omega
    · refine .inl ?_
      omega
  · omega

theorem column_lt_iff {a b : Instant} (ha : a.FourDigitYear) (hb : b.FourDigitYear) :
    a.column < b.column ↔ a.micros < b.micros := by
  refine ⟨fun h => ?_, column_lt ha hb⟩
  rcases lt_trichotomy a.micros b.micros with hlt | heq | hgt
  · exact hlt
  · rw [← micros_column a, ← micros_column b, heq] at h
    exact absurd h (lt_irrefl _)
  · exact absurd (h.trans (column_lt hb ha hgt)) (lt_irrefl _)

theorem column_le_iff {a b : Instant} (ha : a.FourDigitYear) (hb : b.FourDigitYear) :
    a.column ≤ b.column ↔ a.micros ≤ b.micros := by
  rw [← not_lt, ← not_lt, column_lt_iff hb ha]

theorem column_inj {a b : Instant} (ha : a.FourDigitYear) (hb : b.FourDigitYear) :
    a.column = b.column ↔ a.micros = b.micros := by
  rw [le_antisymm_iff, le_antisymm_iff, column_le_iff ha hb, column_le_iff hb ha]

theorem compare_column {a b : Instant} (ha : a.FourDigitYear) (hb : b.FourDigitYear) :
    compare a.column b.column = compare a.micros b.micros := by
  rcases lt_trichotomy a.micros b.micros with hlt | heq | hgt
  · rw [compare_lt_iff_lt.mpr hlt, compare_lt_iff_lt.mpr (column_lt ha hb hlt)]
  · rw [compare_eq_iff_eq.mpr heq, compare_eq_iff_eq.mpr ((column_inj ha hb).mpr heq)]
  · rw [compare_gt_iff_gt.mpr hgt, compare_gt_iff_gt.mpr (column_lt hb ha hgt)]

/-! ## Instants that a column keeps -/

/-- The column text tells all of the instant: it has a year of four digits and no part below a
microsecond. -/
def Exact (t : Instant) : Prop := t.FourDigitYear ∧ t.micros = t

instance (t : Instant) : Decidable t.Exact := inferInstanceAs (Decidable (_ ∧ _))

theorem exact_micros {t : Instant} (h : t.FourDigitYear) : t.micros.Exact :=
  ⟨micros_fourDigitYear h, micros_micros t⟩

theorem Exact.column_lt_iff {a b : Instant} (ha : a.Exact) (hb : b.FourDigitYear) :
    a.column < b.column ↔ a < b.micros := by
  rw [Instant.column_lt_iff ha.1 hb, ha.2]

theorem Exact.lt_column_iff {a b : Instant} (ha : a.Exact) (hb : b.FourDigitYear) :
    b.column < a.column ↔ b.micros < a := by
  rw [Instant.column_lt_iff hb ha.1, ha.2]

theorem Exact.column_le_iff {a b : Instant} (ha : a.Exact) (hb : b.FourDigitYear) :
    a.column ≤ b.column ↔ a ≤ b.micros := by
  rw [Instant.column_le_iff ha.1 hb, ha.2]

theorem Exact.column_inj {a b : Instant} (ha : a.Exact) (hb : b.Exact) :
    a.column = b.column ↔ a = b := by
  rw [Instant.column_inj ha.1 hb.1, ha.2, hb.2]

end WorkQueue.Instant
