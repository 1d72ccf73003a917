import Mathlib
import WorkQueue.Text.Numeral

/-! # Digits of numerals

Numerals of one width read back as the numbers they were written for, and compare as text in the
way their numbers compare. Plain numerals have digits only and no zeros in front.
-/

namespace WorkQueue.Numeral

theorem lt_append {x y : List Char} (h : x < y) (hlen : x.length = y.length) (u v : List Char) :
    x ++ u < y ++ v := by
  induction x generalizing y with
  | nil =>
      obtain rfl := List.length_eq_zero_iff.mp hlen.symm
      exact absurd h (List.not_lt_nil _)
  | cons c x ih =>
      cases y with
      | nil => exact absurd h (List.not_lt_nil _)
      | cons d y =>
          rcases List.cons_lt_cons_iff.mp h with hc | ⟨rfl, hxy⟩
          · exact List.cons_lt_cons_iff.mpr (.inl hc)
          · exact List.cons_lt_cons_iff.mpr (.inr ⟨rfl, ih hxy (Nat.succ.inj hlen)⟩)

theorem digitChar_lt {d d' : Nat} (h : d < d') (h' : d' < 16) : digitChar d < digitChar d' := by
  have all : ∀ d' < 16, ∀ d < d', digitChar d < digitChar d' := by decide
  exact all d' h' d h

theorem isDecimal_digitChar {d : Nat} (h : d < 10) : isDecimal (digitChar d) = true := by
  have all : ∀ d < 10, isDecimal (digitChar d) = true := by decide
  exact all d h

theorem fixed_length (base width n : Nat) : (fixed base width n).length = width := by
  induction width generalizing n with
  | zero => rfl
  | succ width ih => simp [fixed, ih]

theorem all_fixed {base : Nat} (hb : 0 < base) (hb' : base ≤ 16) (width n : Nat) :
    (fixed base width n).all (isDigitIn base) = true := by
  induction width generalizing n with
  | zero => rfl
  | succ width ih =>
      simp only [fixed, List.all_append, ih, List.all_cons, List.all_nil, Bool.true_and,
        Bool.and_true]
      exact isDigitIn_digitChar hb' (Nat.mod_lt n hb)

theorem isDecimal_of_mem_fixed {width n : Nat} {c : Char} (h : c ∈ fixed 10 width n) :
    isDecimal c = true := by
  induction width generalizing n with
  | zero => simp [fixed] at h
  | succ width ih =>
      rcases List.mem_append.mp h with h | h
      · exact ih h
      · obtain rfl := List.mem_singleton.mp h
        exact isDecimal_digitChar (Nat.mod_lt n (by decide))

theorem takeWhile_isDecimal {ds : List Char} (rest : List Char) (h : ∀ c ∈ ds, isDecimal c = true)
    (hrest : ∀ c ∈ rest.head?, isDecimal c = false) : (ds ++ rest).takeWhile isDecimal = ds := by
  rw [List.takeWhile_append_of_pos h]
  cases rest with
  | nil => simp
  | cons c rest => simp [hrest c rfl]

theorem value_fixed {base : Nat} (hb : 0 < base) (hb' : base ≤ 16) {width n : Nat}
    (h : n < base ^ width) : value base (fixed base width n) = n := by
  induction width generalizing n with
  | zero =>
      obtain rfl : n = 0 := by simpa using h
      rfl
  | succ width ih =>
      have hdiv : n / base < base ^ width := Nat.div_lt_of_lt_mul (by rwa [← Nat.pow_succ'])
      rw [fixed, value_append_digitChar (Nat.lt_of_lt_of_le (Nat.mod_lt n hb) hb'), ih hdiv]
      exact Nat.div_add_mod n base

theorem fixed_lt_fixed {base : Nat} (hb : 0 < base) (hb' : base ≤ 16) {width n n' : Nat}
    (h : n < n') (h' : n' < base ^ width) : fixed base width n < fixed base width n' := by
  induction width generalizing n n' with
  | zero => simp at h'; omega
  | succ width ih =>
      have hdiv' : n' / base < base ^ width := Nat.div_lt_of_lt_mul (by rwa [← Nat.pow_succ'])
      rcases Nat.lt_or_eq_of_le (Nat.div_le_div_right (c := base) (Nat.le_of_lt h)) with hdiv | hdiv
      · exact lt_append (ih hdiv hdiv') (by simp only [fixed_length]) _ _
      · have hmod : n % base < n' % base := by
          have := Nat.div_add_mod n base
          have := Nat.div_add_mod n' base
          rw [hdiv] at *
          omega
        simp only [fixed, hdiv]
        exact List.append_left_lt (List.cons_lt_cons_iff.mpr
          (.inl (digitChar_lt hmod (Nat.lt_of_lt_of_le (Nat.mod_lt n' hb) hb'))))

/-! ## Plain numerals -/

theorem isDecimal_of_mem_natural {n : Nat} {c : Char} (h : c ∈ natural n) : isDecimal c = true := by
  fun_induction natural n with
  | case1 n hn =>
      obtain rfl := List.mem_singleton.mp h
      exact isDecimal_digitChar hn
  | case2 n _ ih =>
      rcases List.mem_append.mp h with h | h
      · exact ih h
      · obtain rfl := List.mem_singleton.mp h
        exact isDecimal_digitChar (Nat.mod_lt n (by decide))

theorem head?_natural {n : Nat} (h : n ≠ 0) : (natural n).head? ≠ some '0' := by
  fun_induction natural n with
  | case1 n hn =>
      have all : ∀ d < 10, d ≠ 0 → [digitChar d].head? ≠ some '0' := by decide
      exact all n hn h
  | case2 n hn ih =>
      rw [List.head?_append_of_ne_nil _ (natural_ne_nil _)]
      exact ih (by omega)

theorem natural_zero : natural 0 = ['0'] := by
  unfold natural
  rfl

end WorkQueue.Numeral
