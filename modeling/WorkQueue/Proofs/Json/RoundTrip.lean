import Mathlib
import WorkQueue.Json.Fields
import WorkQueue.Json.Reader
import WorkQueue.Json.Writer
import WorkQueue.Proofs.Text.Numeral

/-! # Reading written JSON

A value reads back from its compact text, whatever text follows it. Two kinds of value are left out:
numerals with a fraction or an exponent, and strings that have no text.
-/

namespace WorkQueue.Json

open Numeral

mutual
/-- Every numeral is an integer and every string and key has a text. -/
def plain : Json → Bool
  | .real _ => false
  | .string s => s.isSome
  | .array items => plainItems items
  | .object members => plainMembers members
  | _ => true

def plainItems : List Json → Bool
  | [] => true
  | j :: js => plain j && plainItems js

def plainMembers : List (Option String × Json) → Bool
  | [] => true
  | (k, j) :: ms => k.isSome && plain j && plainMembers ms
end

/-! ## Strings -/

theorem readHex4?_fixed {n : Nat} (h : n < 16 ^ 4) (cs : List Char) :
    readHex4? (fixed 16 4 n ++ cs) = some (n, cs) := by
  obtain ⟨a, b, c, d, hds⟩ : ∃ a b c d, fixed 16 4 n = [a, b, c, d] := ⟨_, _, _, _, rfl⟩
  have hread : read? 16 [a, b, c, d] = some n := by
    rw [← hds, read?, if_neg (by simp [hds]), if_pos (all_fixed (by decide) (by decide) 4 n),
      value_fixed (by decide) (by decide) h]
  simp only [hds, List.cons_append, List.nil_append, readHex4?, hread, Option.map_some]

theorem readPieces?_plain {c : Char} (h : 32 ≤ c.toNat) (hquote : c ≠ '"') (hslash : c ≠ '\\')
    (fuel : Nat) (cs : List Char) :
    readPieces? (fuel + 1) (c :: cs) =
      (readPieces? fuel cs).map fun p => (.char c :: p.1, p.2) := by
  rw [readPieces?.eq_def]
  simp only
  split
  · simp_all
  · simp_all
  · simp_all
  · simp_all
  · rename_i heq
    obtain ⟨rfl, rfl⟩ := List.cons.inj heq
    rw [if_neg (by simp [hslash]; omega)]
    cases readPieces? fuel cs <;> rfl

theorem readPieces?_escape {letter c : Char} (h : escaped? letter = some c) (hu : letter ≠ 'u')
    (fuel : Nat) (cs : List Char) :
    readPieces? (fuel + 1) ('\\' :: letter :: cs) =
      (readPieces? fuel cs).map fun p => (.char c :: p.1, p.2) := by
  simp only [readPieces?, h]
  cases readPieces? fuel cs <;> rfl

theorem readPieces?_unit {n : Nat} (h : n < 32) (fuel : Nat) (cs : List Char) :
    readPieces? (fuel + 1) ('\\' :: 'u' :: (fixed 16 4 n ++ cs)) =
      (readPieces? fuel cs).map fun p => (.char (Char.ofNat n) :: p.1, p.2) := by
  have hread : readHex4? (fixed 16 4 n ++ cs) = some (n, cs) := readHex4?_fixed (by omega) cs
  have hhalf : (decide (0xD800 ≤ n) && decide (n ≤ 0xDFFF)) = false := by simp; omega
  simp only [readPieces?, hread, Option.bind_eq_bind, Option.bind_some, hhalf]
  cases readPieces? fuel cs <;> rfl

theorem readPieces?_writtenChar (c : Char) (fuel : Nat) (cs : List Char) :
    readPieces? (fuel + 1) (writtenChar c ++ cs) =
      (readPieces? fuel cs).map fun p => (.char c :: p.1, p.2) := by
  by_cases hquote : c = '"'
  · subst hquote
    exact readPieces?_escape rfl (by decide) fuel cs
  by_cases hslash : c = '\\'
  · subst hslash
    exact readPieces?_escape rfl (by decide) fuel cs
  by_cases hplain : 32 ≤ c.toNat
  · simp only [writtenChar, if_neg hquote, if_neg hslash, if_pos hplain]
    exact readPieces?_plain hplain hquote hslash fuel cs
  -- the control characters, five of which have a letter
  simp only [writtenChar, if_neg hquote, if_neg hslash, if_neg hplain]
  split_ifs with hb ht hn hf hr
  · exact hb ▸ readPieces?_escape rfl (by decide) fuel cs
  · exact ht ▸ readPieces?_escape rfl (by decide) fuel cs
  · exact hn ▸ readPieces?_escape rfl (by decide) fuel cs
  · exact hf ▸ readPieces?_escape rfl (by decide) fuel cs
  · exact hr ▸ readPieces?_escape rfl (by decide) fuel cs
  · have := readPieces?_unit (Nat.lt_of_not_le hplain) fuel cs
    rwa [Char.ofNat_toNat] at this

theorem readPieces?_text (cs rest : List Char) {fuel : Nat}
    (hfuel : (cs.flatMap writtenChar).length < fuel) :
    readPieces? fuel (cs.flatMap writtenChar ++ '"' :: rest) = some (cs.map .char, rest) := by
  induction cs generalizing fuel with
  | nil =>
      obtain ⟨n, rfl⟩ := Nat.exists_eq_succ_of_ne_zero (Nat.ne_of_gt hfuel)
      rfl
  | cons c cs ih =>
      have hpos : 0 < (writtenChar c).length := by
        simp only [writtenChar]
        split_ifs <;> exact Nat.succ_pos _
      obtain ⟨n, rfl⟩ := Nat.exists_eq_succ_of_ne_zero (Nat.ne_of_gt (Nat.zero_lt_of_lt hfuel))
      simp only [List.flatMap_cons, List.length_append] at hfuel
      rw [List.flatMap_cons, List.append_assoc, readPieces?_writtenChar, ih (by omega)]
      rfl

theorem join?_char (cs : List Char) : join? (cs.map .char) = some cs := by
  induction cs with
  | nil => rfl
  | cons c cs ih => simp only [List.map_cons, join?, ih, Option.map_some]

theorem readString?_written (s : String) (rest : List Char) :
    readString? (s.toList.flatMap writtenChar ++ '"' :: rest) = some (some s, rest) := by
  have hfuel : (s.toList.flatMap writtenChar).length <
      (s.toList.flatMap writtenChar ++ '"' :: rest).length + 1 := by
    rw [List.length_append]
    omega
  simp only [readString?, readPieces?_text _ _ hfuel, Option.map_some, join?_char,
    String.ofList_toList]

/-! ## Numerals -/

/-- The text does not go on with a numeral that it follows. -/
def Stops (rest : List Char) : Prop :=
  ∀ c ∈ rest.head?, isDecimal c = false ∧ c ≠ '.' ∧ c ≠ 'e' ∧ c ≠ 'E'

theorem readNumber?_natural (negative : Bool) {n : Nat} (hn : negative = true → n ≠ 0)
    {rest : List Char} (hrest : Stops rest) :
    readNumber? negative (natural n ++ rest) =
      some (.integer (if negative then -(n : Int) else n), rest) := by
  have hdigits : (natural n ++ rest).takeWhile isDecimal = natural n :=
    takeWhile_isDecimal rest (fun c => isDecimal_of_mem_natural) fun c hc => (hrest c hc).1
  have hempty : (natural n).isEmpty = false := by simp [natural_ne_nil]
  have hzeros : ((natural n).head? = some '0' && decide (1 < (natural n).length)) = false := by
    by_cases h : n = 0
    · subst h
      simp [natural_zero]
    · simp [head?_natural h]
  have hdecimals : readDecimals? rest = some (none, rest) := by
    cases rest with
    | nil => rfl
    | cons c rest =>
        have := (hrest c rfl).2.1
        simp only [readDecimals?]
        split
        · simp_all
        · simp_all
  have hexponent : readExponent? rest = some (none, rest) := by
    cases rest with
    | nil => rfl
    | cons c rest =>
        have := (hrest c rfl).2.2
        simp [readExponent?, this]
  have hsign : (negative && decide ((if negative then -(n : Int) else n) = 0)) = false := by
    cases negative with
    | false => rfl
    | true => simpa using hn rfl
  simp only [readNumber?, hdigits, hempty, hzeros, List.drop_left', hdecimals, hexponent,
    Bool.false_eq_true, if_false, Option.bind_eq_bind, Option.bind_some, Decimal.isPlain,
    Option.isNone_none, Bool.and_self, Bool.true_and, Decimal.toInt, value_natural, hsign,
    Bool.not_false, if_true]

/-! ## Values -/

theorem ne_of_isDecimal {c d : Char} (hc : isDecimal c = true) (hd : isDecimal d = false) :
    c ≠ d := by
  rintro rfl
  rw [hc] at hd
  cases hd

theorem isSpace_of_isDecimal {c : Char} (h : isDecimal c = true) : isSpace c = false := by
  simp only [isSpace, Bool.or_eq_false_iff, decide_eq_false_iff_not]
  exact ⟨⟨⟨ne_of_isDecimal h rfl, ne_of_isDecimal h rfl⟩, ne_of_isDecimal h rfl⟩,
    ne_of_isDecimal h rfl⟩

theorem readValue?_natural {c : Char} {cs : List Char} {n : Nat} (hn : natural n = c :: cs)
    {rest : List Char} (hrest : Stops rest) (fuel : Nat) :
    readValue? (fuel + 1) (c :: cs ++ rest) = some (.integer n, rest) := by
  have hc : isDecimal c = true := isDecimal_of_mem_natural (hn ▸ List.mem_cons_self)
  have hnot : ∀ d, isDecimal d = false → c ≠ d := fun d => ne_of_isDecimal hc
  have hspace := isSpace_of_isDecimal hc
  have hread := readNumber?_natural false (by simp) (n := n) hrest
  rw [hn] at hread
  simp only [readValue?, skipSpace, List.cons_append, List.dropWhile_cons, hspace,
    Bool.false_eq_true, if_false, hnot '"' rfl, hnot '[' rfl, hnot '\x7b' rfl, hnot '-' rfl,
    hnot 't' rfl, hnot 'f' rfl, hnot 'n' rfl]
  exact hread

theorem written_head (j : Json) (hj : plain j = true) :
    ∃ c cs, written j = c :: cs ∧ isSpace c = false ∧ c ≠ ']' := by
  cases j with
  | null => exact ⟨_, _, rfl, rfl, by decide⟩
  | bool b => cases b <;> exact ⟨_, _, rfl, rfl, by decide⟩
  | real d => simp [plain] at hj
  | string s => exact ⟨_, _, rfl, rfl, by decide⟩
  | array items => exact ⟨_, _, rfl, rfl, by decide⟩
  | object members => exact ⟨_, _, rfl, rfl, by decide⟩
  | integer n =>
      cases n with
      | negSucc n => exact ⟨_, _, rfl, rfl, by decide⟩
      | ofNat n =>
          obtain ⟨c, cs, hcs⟩ := List.exists_cons_of_ne_nil (natural_ne_nil n)
          have hc : isDecimal c = true := isDecimal_of_mem_natural (hcs ▸ List.mem_cons_self)
          exact ⟨c, cs, hcs, isSpace_of_isDecimal hc, ne_of_isDecimal hc rfl⟩

theorem stops_cons {c : Char} {cs : List Char}
    (h : isDecimal c = false ∧ c ≠ '.' ∧ c ≠ 'e' ∧ c ≠ 'E') : Stops (c :: cs) := by
  rintro d hd
  obtain rfl : c = d := by simpa using hd
  exact h

theorem skipSpace_cons {c : Char} (h : isSpace c = false) (cs : List Char) :
    skipSpace (c :: cs) = c :: cs := by
  simp only [skipSpace, List.dropWhile_cons, h, Bool.false_eq_true, if_false]

theorem readValue?_array {c : Char} (hspace : isSpace c = false) (hclose : c ≠ ']') (fuel : Nat)
    (cs : List Char) :
    readValue? (fuel + 1) ('[' :: c :: cs) =
      (readItems? fuel (c :: cs)).map fun p => (.array p.1, p.2) := by
  rw [readValue?, skipSpace_cons rfl]
  simp only [skipSpace_cons hspace]
  rw [if_neg (by decide), if_pos trivial]
  split
  · simp_all
  · rfl

theorem readValue?_object (fuel : Nat) (cs : List Char) :
    readValue? (fuel + 1) ('\x7b' :: '"' :: cs) =
      (readMembers? fuel ('"' :: cs)).map fun p => (.object p.1, p.2) := rfl

theorem writtenItems_next (j : Json) (js : List Json) :
    writtenItems false (j :: js) = ',' :: writtenItems true (j :: js) := by
  simp only [writtenItems, Bool.false_eq_true, if_true, if_false, List.cons_append,
    List.nil_append]

theorem writtenMembers_next (m : Option String × Json) (ms : List (Option String × Json)) :
    writtenMembers false (m :: ms) = ',' :: writtenMembers true (m :: ms) := by
  simp only [writtenMembers, Bool.false_eq_true, if_true, if_false, List.cons_append,
    List.nil_append]

theorem writtenMembers_key (key : String) (j : Json) (ms : List (Option String × Json))
    (rest : List Char) :
    writtenMembers true ((some key, j) :: ms) ++ rest =
      '"' :: (key.toList.flatMap writtenChar ++ '"' :: (':' :: (written j ++
        (writtenMembers false ms ++ rest)))) := by
  simp only [writtenMembers, writtenString, writtenText, Option.getD_some, if_true,
    List.nil_append, List.cons_append, List.append_assoc]

mutual
theorem readValue?_written (j : Json) (hj : plain j = true) (rest : List Char)
    (hrest : Stops rest) (fuel : Nat) (hfuel : (written j).length < fuel) :
    readValue? fuel (written j ++ rest) = some (j, rest) := by
  obtain ⟨fuel, rfl⟩ := Nat.exists_eq_succ_of_ne_zero (Nat.ne_of_gt (Nat.zero_lt_of_lt hfuel))
  cases j with
  | null => rfl
  | bool b => cases b <;> rfl
  | real d => simp [plain] at hj
  | integer n =>
      cases n with
      | ofNat n =>
          obtain ⟨c, cs, hcs⟩ := List.exists_cons_of_ne_nil (natural_ne_nil n)
          have hread := readValue?_natural hcs hrest fuel
          rwa [← hcs] at hread
      | negSucc n => exact readNumber?_natural true (n := n + 1) (by simp) hrest
  | string s =>
      obtain ⟨s, rfl⟩ := Option.isSome_iff_exists.mp hj
      have hread := readString?_written s rest
      simp only [written, writtenString, writtenText, Option.getD_some, List.cons_append,
        List.append_assoc, List.nil_append]
      rw [readValue?, skipSpace_cons rfl]
      simp only [if_true, hread, Option.map_some]
  | array items =>
      cases items with
      | nil => rfl
      | cons j js =>
          have hplain : plain j = true := by
            simp only [plain, plainItems, Bool.and_eq_true] at hj
            exact hj.1
          simp only [written, List.length_cons, List.length_append] at hfuel
          have hread := readItems?_written j js hj rest fuel (by omega)
          obtain ⟨c, cs, hcs, hspace, hclose⟩ := written_head j hplain
          rw [written, List.cons_append, List.append_assoc]
          simp only [writtenItems, hcs, if_true, List.nil_append, List.cons_append] at hread ⊢
          rw [readValue?_array hspace hclose, hread, Option.map_some]
  | object members =>
      cases members with
      | nil => rfl
      | cons m ms =>
          obtain ⟨key, j⟩ := m
          simp only [written, List.length_cons, List.length_append] at hfuel
          have hread := readMembers?_written key j ms hj rest fuel (by omega)
          have hkey : key.isSome = true := by
            simp only [plain, plainMembers, Bool.and_eq_true] at hj
            exact hj.1.1
          obtain ⟨key, rfl⟩ := Option.isSome_iff_exists.mp hkey
          rw [written, List.cons_append, List.append_assoc]
          simp only [List.cons_append, List.nil_append, writtenMembers_key] at hread ⊢
          rw [readValue?_object, hread, Option.map_some]
termination_by fuel

theorem readItems?_written (j : Json) (js : List Json) (h : plainItems (j :: js) = true)
    (rest : List Char) (fuel : Nat) (hfuel : (writtenItems true (j :: js)).length + 1 < fuel) :
    readItems? fuel (writtenItems true (j :: js) ++ ']' :: rest) = some (j :: js, rest) := by
  obtain ⟨fuel, rfl⟩ := Nat.exists_eq_succ_of_ne_zero (Nat.ne_of_gt (Nat.zero_lt_of_lt hfuel))
  simp only [plainItems, Bool.and_eq_true] at h
  simp only [writtenItems, if_true, List.nil_append, List.length_append] at hfuel
  cases js with
  | nil =>
      have hread := readValue?_written j h.1 (']' :: rest) (stops_cons (by decide)) fuel (by omega)
      rw [writtenItems, writtenItems, if_pos rfl, List.nil_append, List.append_nil, readItems?,
        hread]
      rfl
  | cons j' js =>
      rw [writtenItems_next] at hfuel
      have hread := readValue?_written j h.1
        (',' :: (writtenItems true (j' :: js) ++ ']' :: rest)) (stops_cons (by decide)) fuel
        (by omega)
      have hnext := readItems?_written j' js h.2 rest fuel
        (by rw [List.length_cons] at hfuel; omega)
      rw [writtenItems, if_pos rfl, List.nil_append, writtenItems_next, List.append_assoc,
        List.cons_append, readItems?, hread]
      have hcomma := skipSpace_cons (c := ',') rfl
      simp only [Option.bind_eq_bind, Option.bind_some, hcomma, hnext, Option.map_some]
termination_by fuel

theorem readMembers?_written (key : Option String) (j : Json) (ms : List (Option String × Json))
    (h : plainMembers ((key, j) :: ms) = true) (rest : List Char) (fuel : Nat)
    (hfuel : (writtenMembers true ((key, j) :: ms)).length + 1 < fuel) :
    readMembers? fuel (writtenMembers true ((key, j) :: ms) ++ '\x7d' :: rest) =
      some ((key, j) :: ms, rest) := by
  obtain ⟨fuel, rfl⟩ := Nat.exists_eq_succ_of_ne_zero (Nat.ne_of_gt (Nat.zero_lt_of_lt hfuel))
  simp only [plainMembers, Bool.and_eq_true] at h
  obtain ⟨key, rfl⟩ := Option.isSome_iff_exists.mp h.1.1
  simp only [writtenMembers, if_true, List.nil_append, List.length_append, List.length_cons]
    at hfuel
  rw [writtenMembers_key, readMembers?, skipSpace_cons rfl]
  have hcolon := skipSpace_cons (c := ':') rfl
  simp only [readString?_written, Option.bind_eq_bind, Option.bind_some, hcolon]
  cases ms with
  | nil =>
      have hread := readValue?_written j h.1.2 ('\x7d' :: rest) (stops_cons (by decide)) fuel
        (by omega)
      rw [writtenMembers, List.nil_append, hread]
      rfl
  | cons m ms =>
      obtain ⟨key', j'⟩ := m
      rw [writtenMembers_next] at hfuel
      have hread := readValue?_written j h.1.2
        (',' :: (writtenMembers true ((key', j') :: ms) ++ '\x7d' :: rest))
        (stops_cons (by decide)) fuel (by omega)
      have hnext := readMembers?_written key' j' ms h.2 rest fuel
        (by rw [List.length_cons] at hfuel; omega)
      rw [writtenMembers_next, List.cons_append, hread]
      have hcomma := skipSpace_cons (c := ',') rfl
      simp only [Option.bind_some, hcomma, hnext, Option.map_some]
termination_by fuel
end

theorem parse?_render {j : Json} (hj : plain j = true) : parse? j.render = some j := by
  have hread := readValue?_written j hj [] (by simp [Stops]) _ (Nat.lt_succ_self _)
  rw [List.append_nil] at hread
  simp only [parse?, render, String.toList_ofList, Option.bind_eq_bind, hread, Option.bind_some]
  rfl

/-! ## Lists -/

theorem plainItems_map {α : Type} {f : α → Json} {xs : List α} (h : ∀ x ∈ xs, plain (f x) = true) :
    plainItems (xs.map f) = true := by
  induction xs with
  | nil => rfl
  | cons x xs ih =>
      simp only [List.map_cons, plainItems, Bool.and_eq_true]
      exact ⟨h x List.mem_cons_self, ih fun y hy => h y (List.mem_cons_of_mem x hy)⟩

theorem mapM_eq_some {α β : Type} {f : α → Option β} {g : α → β} {xs : List α}
    (h : ∀ x ∈ xs, f x = some (g x)) : xs.mapM f = some (xs.map g) := by
  induction xs with
  | nil => rfl
  | cons x xs ih =>
      rw [List.mapM_cons, h x List.mem_cons_self,
        ih fun y hy => h y (List.mem_cons_of_mem x hy)]
      rfl

theorem items?_list {α : Type} {f : α → Json} {g : Json → Option α} (xs : List α)
    (h : ∀ x ∈ xs, g (f x) = some x) : items? g (list f xs) = some xs := by
  have hitems := mapM_eq_some (f := g ∘ f) (g := id) h
  rwa [List.map_id, ← List.mapM_map] at hitems

end WorkQueue.Json
