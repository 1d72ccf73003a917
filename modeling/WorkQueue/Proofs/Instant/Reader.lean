import Mathlib
import WorkQueue.Proofs.Instant.Column
import WorkQueue.Proofs.Text.Bytes

/-! # Reading columns of instants

The text of an instant in a column reads as the instant cut to whole microseconds, and its bytes
are in the order of the instants that are cut so.
-/

namespace WorkQueue

theorem read_next {α β : Type} {part : Option α} {a : α} {rest : α → Option β} {b : β}
    (hpart : part = some a) (hrest : rest a = some b) : (part >>= rest) = some b :=
  Option.bind_eq_some_iff.mpr ⟨a, hpart, hrest⟩

namespace Instant

open Numeral

theorem readDigits?_append {least most : Nat} {ds rest : List Char}
    (hds : ∀ c ∈ ds, isDecimal c = true) (hleast : least ≤ ds.length) (hmost : ds.length ≤ most)
    (hstop : ds.length = most ∨ ∀ c ∈ rest.head?, isDecimal c = false) :
    readDigits? least most (ds ++ rest) = some (value 10 ds, rest) := by
  have hrest : ∀ c ∈ (rest.take (most - ds.length)).head?, isDecimal c = false := by
    rcases hstop with heq | hstop
    · simp [heq]
    · intro c hc
      rw [List.head?_take] at hc
      split at hc
      · cases hc
      · exact hstop c hc
  have hdigits : ((ds ++ rest).take most).takeWhile isDecimal = ds := by
    rw [List.take_append, List.take_of_length_le hmost]
    exact takeWhile_isDecimal _ hds hrest
  simp only [readDigits?, hdigits, if_neg (not_lt.mpr hleast), List.drop_left']

theorem readDigits?_fixed {least width n : Nat} (hleast : least ≤ width) (h : n < 10 ^ width)
    (rest : List Char) : readDigits? least width (fixed 10 width n ++ rest) = some (n, rest) := by
  have hlen := fixed_length 10 width n
  rw [readDigits?_append (fun c => isDecimal_of_mem_fixed) (by rw [hlen]; exact hleast) hlen.le
    (.inl hlen), value_fixed (by decide) (by decide) h]

theorem value_append_zeros (ds : List Char) (k : Nat) :
    value 10 (ds ++ List.replicate k '0') = value 10 ds * 10 ^ k := by
  induction k generalizing ds with
  | zero => simp
  | succ k ih =>
      have hzero : ds ++ List.replicate (k + 1) '0' =
          ds ++ [digitChar 0] ++ List.replicate k '0' := by
        rw [List.replicate_succ, List.append_assoc]
        rfl
      rw [hzero, ih, value_append_digitChar (by decide), Nat.pow_succ']
      simp only [Nat.add_zero]
      rw [Nat.mul_comm 10, Nat.mul_assoc]

theorem readFraction?_fixed {width n : Nat} (hpos : 0 < width) (hwidth : width ≤ 9)
    (h : n < 10 ^ width) {rest : List Char} (hrest : ∀ c ∈ rest.head?, isDecimal c = false) :
    readFraction? ('.' :: (fixed 10 width n ++ rest)) = some (n * 10 ^ (9 - width), rest) := by
  have hlen := fixed_length 10 width n
  have hdigits : (fixed 10 width n ++ rest).takeWhile isDecimal = fixed 10 width n :=
    takeWhile_isDecimal _ (fun c => isDecimal_of_mem_fixed) hrest
  have hpad : (fixed 10 width n ++ List.replicate 9 '0').take 9 =
      fixed 10 width n ++ List.replicate (9 - width) '0' := by
    rw [List.take_append, hlen, List.take_of_length_le (by omega), List.take_replicate]
    congr 2
    omega
  have hne : (fixed 10 width n).isEmpty = false := by
    rw [List.isEmpty_eq_false_iff, ← List.length_pos_iff, hlen]
    exact hpos
  simp only [readFraction?, hdigits, hne, Bool.false_eq_true, if_false, hpad, value_append_zeros,
    value_fixed (by decide : 0 < 10) (by decide) h]
  rw [List.drop_left' rfl]

theorem readSeparator?_t (rest : List Char) : readSeparator? ('T' :: rest) = some rest := rfl

theorem readOffset?_z (skip : List Char → Option (List Char)) :
    readOffset? skip ['Z'] = some (0, []) := rfl

theorem ofLocal?_parts (t : Instant) (n : Nat) (h : Valid t.seconds n) :
    ofLocal? t.date t.secondOfDay n 0 = some ⟨t.seconds, n, h⟩ := by
  have hday : t.date.dayNumber = t.day := Date.dayNumber_ofDayNumber t.day
  simp only [ofLocal?, Date.ofDayNumber_exists, date, if_true]
  rw [show (Date.ofDayNumber t.day).dayNumber = t.day from hday, ← seconds_eq]
  simp only [make?, h, dif_pos, Option.bind_some, Int.sub_zero]

/-- The parts that are written make the instant; the sixtieth second is a leap second. -/
theorem assemble?_parts (t : Instant) :
    assemble? t.date.year t.date.month t.date.day (t.secondOfDay / 3600)
      (t.secondOfDay / 60 % 60) (t.secondOfDay % 60 + t.nanos / nanosPerSecond)
      (t.nanos % nanosPerSecond) 0 = some t := by
  have hlt := t.secondOfDay_lt
  have hnanos : t.nanos < 2 * nanosPerSecond := t.valid.2.2.1
  have hleap := t.leap_second
  have hwhole : ofLocal? t.date t.secondOfDay t.nanos 0 = some t := ofLocal?_parts t _ t.valid
  simp only [nanosPerSecond] at *
  rw [assemble?, if_neg (by omega)]
  split
  · rename_i hsixty
    have hsecond :
        t.secondOfDay / 3600 * 3600 + t.secondOfDay / 60 % 60 * 60 + 59 = t.secondOfDay := by
      omega
    have hrest : nanosPerSecond + t.nanos % 1000000000 = t.nanos := by
      simp only [nanosPerSecond]
      omega
    rw [hsecond, hrest]
    exact hwhole
  · rename_i hsixty
    have hsecond : t.secondOfDay / 3600 * 3600 + t.secondOfDay / 60 % 60 * 60 +
        (t.secondOfDay % 60 + t.nanos / 1000000000) = t.secondOfDay := by
      omega
    have hsmall : t.nanos < 1000000000 := by
      by_contra hge
      have := hleap (Nat.le_of_not_lt hge)
      omega
    rw [hsecond, Nat.mod_eq_of_lt hsmall]
    exact hwhole

theorem time_bounds (t : Instant) :
    t.secondOfDay / 3600 < 100 ∧ t.secondOfDay / 60 % 60 < 100 ∧
      t.secondOfDay % 60 + t.nanos / nanosPerSecond < 100 := by
  have hlt := t.secondOfDay_lt
  have hnanos : t.nanos < 2 * nanosPerSecond := t.valid.2.2.1
  simp only [nanosPerSecond] at *
  omega

theorem assemble?_micros {t : Instant} (h : t.FourDigitYear) :
    assemble? (t.date.year.toNat : Int) t.date.month t.date.day (t.secondOfDay / 3600)
      (t.secondOfDay / 60 % 60) (t.secondOfDay % 60 + t.nanos / nanosPerSecond)
      (t.nanos % nanosPerSecond / 1000 * 1000) 0 = some t.micros := by
  have hparts := assemble?_parts t.micros
  have hrest : t.nanos / 1000 * 1000 % nanosPerSecond = t.nanos % nanosPerSecond / 1000 * 1000 := by
    simp only [nanosPerSecond]
    omega
  simp only [date, day, secondOfDay, micros_seconds, micros_nanos, micros_leap, hrest] at hparts
  rw [Int.toNat_of_nonneg h.1]
  exact hparts

theorem readStrict?_written {t : Instant} (h : t.FourDigitYear) :
    readStrict? (t.written .micros) = some t.micros := by
  obtain ⟨hmonth, hday⟩ := month_day_bounds t
  obtain ⟨hhour, hminute, hsecond⟩ := t.time_bounds
  have hyear : t.date.year.toNat < 10 ^ 4 := by have := h.2; omega
  have hmicros : t.nanos % nanosPerSecond / 1000 < 10 ^ 6 := by
    simp only [nanosPerSecond]; omega
  have hstop : ∀ c ∈ ['Z'].head?, isDecimal c = false := by simp [isDecimal]
  have hfraction := readFraction?_fixed (by decide) (by decide) hmicros hstop
  rw [written_parts h, readStrict?]
  refine read_next (readDigits?_fixed (le_refl 4) hyear _) (read_next rfl ?_)
  refine read_next (readDigits?_fixed (le_refl 2) hmonth _) (read_next rfl ?_)
  refine read_next (readDigits?_fixed (le_refl 2) hday _) (read_next (readSeparator?_t _) ?_)
  refine read_next (readDigits?_fixed (le_refl 2) hhour _) (read_next rfl ?_)
  refine read_next (readDigits?_fixed (le_refl 2) hminute _) (read_next rfl ?_)
  refine read_next (readDigits?_fixed (le_refl 2) hsecond _) (read_next hfraction ?_)
  exact read_next (readOffset?_z _) (assemble?_micros h)

theorem ofColumn_column {t : Instant} (h : t.FourDigitYear) :
    ofColumn t.column = .ok t.micros := by
  simp only [ofColumn, column, text, String.toList_ofList, readStrict?_written h]

theorem ofColumn?_column {t : Option Instant} (h : ∀ a ∈ t, a.FourDigitYear) :
    ofColumn? (t.map column) = .ok (t.map micros) := by
  cases t with
  | none => rfl
  | some t => simp only [Option.map_some, ofColumn?, ofColumn_column (h t rfl)]; rfl

theorem readStrict?_signed {c : Char} (hc : isDecimal c = false) (rest : List Char) :
    readStrict? (c :: rest) = none := by
  have hdigits : readDigits? 4 4 (c :: rest) = none := by
    simp [readDigits?, hc]
  rw [readStrict?, hdigits]
  rfl

/-- A column with a year of more digits, or before the year 0, does not read. -/
theorem ofColumn_wide {t : Instant} (h : ¬ t.FourDigitYear) :
    ofColumn t.column = .error (.unreadable (.timestamp t.column)) := by
  have hsigned : ∃ c rest, isDecimal c = false ∧ t.written .micros = c :: rest := by
    unfold written writtenDate writtenYear
    split
    · rename_i n hn
      have hwide : ¬ n < 10000 := fun hlt => h ⟨by rw [hn]; exact Int.natCast_nonneg n,
        by rw [hn]; exact Int.ofNat_le.mpr (Nat.le_of_lt_succ hlt)⟩
      rw [if_neg hwide]
      exact ⟨'+', _, rfl, rfl⟩
    · exact ⟨'-', _, rfl, rfl⟩
  obtain ⟨c, rest, hc, hwritten⟩ := hsigned
  have hread : readStrict? t.column.toList = none := by
    rw [column, text, String.toList_ofList, hwritten, readStrict?_signed hc]
  rw [ofColumn, hread]

theorem ofColumn?_wide {t : Option Instant} (h : ¬ ∀ a ∈ t, a.FourDigitYear) :
    ∃ raw, ofColumn? (t.map column) = .error (.unreadable (.timestamp raw)) := by
  cases t with
  | none => exact absurd (by simp) h
  | some t =>
      have hwide : ¬ t.FourDigitYear := fun ht => h fun a ha => Option.some.inj ha ▸ ht
      refine ⟨t.column, ?_⟩
      rw [Option.map_some, ofColumn?, ofColumn_wide hwide]
      rfl

/-! ## Bytes -/

/-- Byte by byte, the texts of instants with years of four digits compare as the instants do once
they are cut to whole microseconds, leap seconds included, and they read back cut. -/
theorem column_collates {a b : Instant} (ha : a.FourDigitYear) (hb : b.FourDigitYear) :
    compare (Bytes.ofText a.column) (Bytes.ofText b.column) = compare a.micros b.micros ∧
      ofColumn a.column = .ok a.micros :=
  ⟨by rw [Bytes.compare_ofText, compare_column ha hb], ofColumn_column ha⟩

/-- A leap second comes before the new year that follows it. -/
theorem column_collates_leap :
    let leap : Instant := ⟨1483228799, 1999999999, by decide⟩
    let newYear : Instant := ⟨1483228800, 1, by decide⟩
    leap.FourDigitYear ∧ newYear.FourDigitYear ∧
      leap.column = "2016-12-31T23:59:60.999999Z" ∧
      newYear.column = "2017-01-01T00:00:00.000000Z" ∧
      compare (Bytes.ofText leap.column) (Bytes.ofText newYear.column) = .lt ∧
      ofColumn leap.column = .ok ⟨1483228799, 1999999000, by decide⟩ := by
  intro leap newYear
  have hleap : leap.FourDigitYear := by decide
  have hnewYear : newYear.FourDigitYear := by decide
  obtain ⟨hcompare, hread⟩ := column_collates hleap hnewYear
  exact ⟨hleap, hnewYear, by decide, by decide, hcompare.trans (by decide),
    hread.trans (congrArg Except.ok (by decide))⟩

end Instant

end WorkQueue
