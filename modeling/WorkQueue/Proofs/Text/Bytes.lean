import Mathlib
import WorkQueue.Text.Bytes

/-! # The order of texts and of their bytes

UTF-8 keeps the order of characters: of two characters the lower one has the lower byte where their
bytes first differ. So texts compare by their characters as they do byte by byte.
-/

namespace WorkQueue.Bytes

theorem ofText_eq (s : String) : ofText s = s.toList.flatMap String.utf8EncodeChar := by
  have hbytes : s.toByteArray = s.toList.utf8Encode := by
    rw [← String.toByteArray_ofList, String.ofList_toList]
  rw [ofText, String.toUTF8_eq_toByteArray, hbytes, List.utf8Encode, List.toList_data_toByteArray]

/-! ## Characters -/

/-- The bytes of the character with a code, as numbers. -/
def units (n : Nat) : List Nat :=
  if n ≤ 0x7f then [n]
  else if n ≤ 0x7ff then [n / 64 % 0x20 + 0xc0, n % 0x40 + 0x80]
  else if n ≤ 0xffff then [n / 4096 % 0x10 + 0xe0, n / 64 % 0x40 + 0x80, n % 0x40 + 0x80]
  else [n / 262144 % 0x08 + 0xf0, n / 4096 % 0x40 + 0x80, n / 64 % 0x40 + 0x80, n % 0x40 + 0x80]

theorem utf8EncodeChar_eq (c : Char) :
    String.utf8EncodeChar c = (units c.val.toNat).map UInt8.ofNat := by
  simp only [String.utf8EncodeChar, units]
  split_ifs <;> rfl

theorem units_lt {n : Nat} (hn : n ≤ 0x10ffff) : ∀ a ∈ units n, a < 256 := by
  simp only [units]
  split_ifs <;> simp only [List.forall_mem_cons, List.not_mem_nil, IsEmpty.forall_iff,
    implies_true, and_true] <;> omega

/-- The first numbers that differ are in order. -/
def Precedes : List Nat → List Nat → Prop
  | a :: as, b :: bs => a < b ∨ a = b ∧ Precedes as bs
  | _, _ => False

theorem units_precedes {n m : Nat} (h : n < m) (hm : m ≤ 0x10ffff) :
    Precedes (units n) (units m) := by
  have hstep {k l : Nat} (hkl : k < l) : k / 64 < l / 64 ∨ k / 64 = l / 64 :=
    Nat.lt_or_eq_of_le (Nat.div_le_div_right hkl.le)
  have htwice (k : Nat) : k / 4096 = k / 64 / 64 := by rw [Nat.div_div_eq_div_mul]
  have hthrice (k : Nat) : k / 262144 = k / 64 / 64 / 64 := by
    rw [Nat.div_div_eq_div_mul, Nat.div_div_eq_div_mul]
  simp only [units, htwice, hthrice]
  -- the last six bits decide only where all before them agree
  rcases hstep h with hlt | heq
  · rcases hstep hlt with hlt' | heq'
    · split_ifs <;> simp only [Precedes] <;> omega
    · split_ifs <;> simp only [Precedes] <;> omega
  · split_ifs <;> simp only [Precedes] <;> omega

theorem compare_of_precedes {as bs : List Nat} (hbs : ∀ b ∈ bs, b < 256) (h : Precedes as bs)
    (u v : Bytes) : compare (as.map UInt8.ofNat ++ u) (bs.map UInt8.ofNat ++ v) = .lt := by
  induction as generalizing bs with
  | nil => cases h
  | cons a as ih =>
      cases bs with
      | nil => cases h
      | cons b bs =>
          have hb : b < 256 := hbs b List.mem_cons_self
          simp only [List.map_cons, List.cons_append, List.compare_cons_cons]
          rcases h with hlt | ⟨rfl, htail⟩
          · have hbyte : UInt8.ofNat a < UInt8.ofNat b := by
              rw [UInt8.lt_iff_toNat_lt, UInt8.toNat_ofNat', UInt8.toNat_ofNat']
              omega
            rw [Std.compare_eq_lt.mpr hbyte, Ordering.lt_then]
          · rw [Std.ReflOrd.compare_self, Ordering.eq_then]
            exact ih (fun b' h' => hbs b' (List.mem_cons_of_mem a h')) htail

theorem compare_utf8EncodeChar {c d : Char} (h : c < d) (u v : Bytes) :
    compare (String.utf8EncodeChar c ++ u) (String.utf8EncodeChar d ++ v) = .lt := by
  have hcode : d.val.toNat ≤ 0x10ffff := by
    rcases d.valid with hlow | ⟨-, hhigh⟩ <;> omega
  rw [utf8EncodeChar_eq, utf8EncodeChar_eq]
  exact compare_of_precedes (units_lt hcode) (units_precedes h hcode) u v

/-! ## Texts -/

theorem compare_append_left (p u v : Bytes) : compare (p ++ u) (p ++ v) = compare u v := by
  induction p with
  | nil => rfl
  | cons b p ih =>
      rw [List.cons_append, List.cons_append, List.compare_cons_cons, Std.ReflOrd.compare_self,
        Ordering.eq_then, ih]

theorem compare_flatMap {cs ds : List Char} (h : cs < ds) :
    compare (cs.flatMap String.utf8EncodeChar) (ds.flatMap String.utf8EncodeChar) = .lt := by
  induction cs generalizing ds with
  | nil =>
      cases ds with
      | nil => exact absurd h (lt_irrefl _)
      | cons d ds =>
          obtain ⟨b, bs, hb⟩ := List.exists_cons_of_ne_nil (String.utf8EncodeChar_ne_nil (c := d))
          rw [List.flatMap_nil, List.flatMap_cons, hb, List.cons_append, List.compare_nil_cons]
  | cons c cs ih =>
      cases ds with
      | nil => exact absurd h (List.not_lt_nil _)
      | cons d ds =>
          rw [List.flatMap_cons, List.flatMap_cons]
          rcases List.cons_lt_cons_iff.mp h with hc | ⟨rfl, hrest⟩
          · exact compare_utf8EncodeChar hc _ _
          · rw [compare_append_left, ih hrest]

/-- Texts compare byte by byte as they do by their characters. -/
theorem compare_ofText (s t : String) : compare (ofText s) (ofText t) = compare s t := by
  rw [ofText_eq, ofText_eq]
  rcases lt_trichotomy s t with hlt | rfl | hgt
  · rw [compare_flatMap (String.lt_iff_toList_lt.mp hlt), compare_lt_iff_lt.mpr hlt]
  · rw [Std.ReflOrd.compare_self, compare_eq_iff_eq.mpr rfl]
  · rw [Std.OrientedOrd.eq_swap, compare_flatMap (String.lt_iff_toList_lt.mp hgt),
      compare_gt_iff_gt.mpr hgt]
    rfl

end WorkQueue.Bytes
