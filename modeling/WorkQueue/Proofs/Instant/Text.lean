import Mathlib
import WorkQueue.Proofs.Instant.Reader

/-! # Reading the text of an instant

The exact text of an instant reads as that instant, whatever its year is and whether or not it is in
a leap second. The reader takes blanks between the parts, so each part is shown not to start with
one.
-/

namespace WorkQueue

open Numeral Text

theorem Numeral.isDecimal_of_mem_atLeast {width n : Nat} {c : Char} (h : c ∈ atLeast width n) :
    isDecimal c = true := by
  rcases List.mem_append.mp h with hzero | hdigit
  · rw [List.eq_of_mem_replicate hzero]
    decide
  · exact isDecimal_of_mem_natural hdigit

theorem Numeral.value_zeros (k : Nat) (ds : List Char) :
    value 10 (List.replicate k '0' ++ ds) = value 10 ds := by
  induction k with
  | zero => simp
  | succ k ih =>
      rw [List.replicate_succ, List.cons_append]
      exact ih

theorem Numeral.value_atLeast (width n : Nat) : value 10 (atLeast width n) = n := by
  rw [atLeast, value_zeros, value_natural]

theorem Numeral.length_atLeast (width n : Nat) : width ≤ (atLeast width n).length := by
  simp only [atLeast, List.length_append, List.length_replicate]
  omega

theorem Text.isBlank_of_isDecimal {c : Char} (h : isDecimal c = true) : isBlank c = false := by
  simp only [isDecimal, isBlank, Bool.and_eq_true, decide_eq_true_eq] at *
  simp
  omega

namespace Instant

theorem skipBlanks_cons {c : Char} (h : isBlank c = false) (cs : List Char) :
    skipBlanks (c :: cs) = c :: cs := by
  simp [skipBlanks, h]

theorem skipBlanks_digits {ds : List Char} (hds : ∀ c ∈ ds, isDecimal c = true) (hne : ds ≠ [])
    (rest : List Char) : skipBlanks (ds ++ rest) = ds ++ rest := by
  obtain ⟨c, ds, rfl⟩ := List.exists_cons_of_ne_nil hne
  exact skipBlanks_cons (isBlank_of_isDecimal (hds c List.mem_cons_self)) (ds ++ rest)

theorem readChar?_skipBlanks {c : Char} (h : isBlank c = false) (cs : List Char) :
    readChar? c (skipBlanks (c :: cs)) = some cs := by
  simp [skipBlanks_cons h, readChar?]

theorem readPart?_fixed {n : Nat} (h : n < 100) (rest : List Char) :
    readPart? (fixed 10 2 n ++ rest) = some (n, rest) := by
  have hne : fixed 10 2 n ≠ [] := by simp [fixed]
  rw [readPart?, skipBlanks_digits (fun c => isDecimal_of_mem_fixed) hne]
  exact readDigits?_fixed (by decide) h rest

theorem readDigits?_atLeast (n : Nat) {rest : List Char}
    (hrest : ∀ c ∈ rest.head?, isDecimal c = false) :
    readDigits? 1 (atLeast 4 n ++ rest).length (atLeast 4 n ++ rest) = some (n, rest) := by
  have hlength := length_atLeast 4 n
  rw [readDigits?_append (fun c => isDecimal_of_mem_atLeast) (by omega) (by simp) (.inr hrest),
    value_atLeast]

theorem readYear?_written (y : Int) (rest : List Char) :
    readYear? (writtenYear y ++ '-' :: rest) = some (y, '-' :: rest) := by
  have hrest : ∀ c ∈ ('-' :: rest).head?, isDecimal c = false := by simp [isDecimal]
  cases y with
  | negSucc n =>
      have hread := readDigits?_atLeast (n + 1) hrest
      simp only [writtenYear, readYear?, List.cons_append, skipBlanks_cons (c := '-') rfl, hread]
      rfl
  | ofNat n =>
      by_cases hn : n < 10000
      · have hread : readDigits? 1 4 (fixed 10 4 n ++ '-' :: rest) = some (n, '-' :: rest) :=
          readDigits?_fixed (by decide) hn _
        have hne : fixed 10 4 n ≠ [] := by simp [fixed]
        have hdigits : ∀ c ∈ fixed 10 4 n, isDecimal c = true := fun c => isDecimal_of_mem_fixed
        obtain ⟨c, ds, hds⟩ := List.exists_cons_of_ne_nil hne
        have hc : isDecimal c = true := hdigits c (by simp [hds])
        simp only [writtenYear, if_pos hn, readYear?, skipBlanks_digits hdigits hne]
        rw [hds, List.cons_append] at hread ⊢
        split
        · simp_all [isDecimal]
        · simp_all [isDecimal]
        · rw [hread]
          rfl
      · have hread := readDigits?_atLeast n hrest
        simp only [writtenYear, if_neg hn, readYear?, List.cons_append,
          skipBlanks_cons (c := '+') rfl, hread]
        rfl

theorem readFraction?_exact {n : Nat} (h : n < nanosPerSecond) {rest : List Char}
    (hrest : ∀ c ∈ rest.head?, isDecimal c = false ∧ c ≠ '.') :
    readFraction? (writtenFraction .exact n ++ rest) = some (n, rest) := by
  have hstop : ∀ c ∈ rest.head?, isDecimal c = false := fun c hc => (hrest c hc).1
  simp only [nanosPerSecond] at h
  simp only [writtenFraction]
  split_ifs with hzero hmillis hmicros
  · rw [List.nil_append, hzero]
    cases rest with
    | nil => rfl
    | cons c rest =>
        have := (hrest c rfl).2
        simp only [readFraction?]
        split
        · simp_all
        · rfl
  · rw [List.cons_append, readFraction?_fixed (by decide) (by decide) (by omega) hstop]
    congr 2
    omega
  · rw [List.cons_append, readFraction?_fixed (by decide) (by decide) (by omega) hstop]
    congr 2
    omega
  · rw [List.cons_append, readFraction?_fixed (by decide) (by decide) (by omega) hstop]
    simp

theorem written_exact (t : Instant) :
    t.written .exact =
      writtenYear t.date.year ++ '-' :: (fixed 10 2 t.date.month ++ '-' ::
        (fixed 10 2 t.date.day ++ 'T' :: (fixed 10 2 (t.secondOfDay / 3600) ++ ':' ::
          (fixed 10 2 (t.secondOfDay / 60 % 60) ++ ':' ::
            (fixed 10 2 (t.secondOfDay % 60 + t.nanos / nanosPerSecond) ++
              (writtenFraction .exact (t.nanos % nanosPerSecond) ++ ['Z'])))))) := by
  simp only [written, writtenDate, writtenTime, List.append_assoc, List.cons_append]

theorem read?_written (t : Instant) : read? (t.written .exact) = some t := by
  obtain ⟨hmonth, hday⟩ := month_day_bounds t
  obtain ⟨hhour, hminute, hsecond⟩ := t.time_bounds
  have hstop : ∀ c ∈ ['Z'].head?, isDecimal c = false ∧ c ≠ '.' := by simp [isDecimal]
  have hfraction := readFraction?_exact (Nat.mod_lt t.nanos (by decide : 0 < nanosPerSecond)) hstop
  have hdash := readChar?_skipBlanks (c := '-') rfl
  have hcolon := readChar?_skipBlanks (c := ':') rfl
  rw [written_exact, read?]
  refine read_next (readYear?_written _ _) (read_next (hdash _) ?_)
  refine read_next (readPart?_fixed hmonth _) (read_next (hdash _) ?_)
  refine read_next (readPart?_fixed hday _) (read_next (readSeparator?_t _) ?_)
  refine read_next (readPart?_fixed hhour _) (read_next (hcolon _) ?_)
  refine read_next (readPart?_fixed hminute _) (read_next (hcolon _) ?_)
  refine read_next (readPart?_fixed hsecond _) (read_next hfraction ?_)
  exact read_next rfl (assemble?_parts t)

theorem ofText?_text (t : Instant) : ofText? (t.text .exact) = some t := by
  rw [ofText?, text, String.toList_ofList, read?_written]

end Instant

end WorkQueue
