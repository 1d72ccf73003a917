import Mathlib
import WorkQueue.Message.Owner
import WorkQueue.Proofs.Text.Numeral

/-! # Reading written identifiers

The text of an identifier has five groups of digits, and it reads back. Different identifiers have
different texts.
-/

namespace WorkQueue.Uuid

open Numeral

theorem digits_length (u : Uuid) : u.digits.length = 32 := fixed_length 16 32 u.value

theorem readDigits?_digits (u : Uuid) : readDigits? u.digits = some u := by
  have hlt : u.value < 16 ^ 32 := u.value_lt
  have hread : read? 16 u.digits = some u.value := by
    have hne : u.digits.isEmpty = false := by
      rw [List.isEmpty_eq_false_iff, ← List.length_pos_iff, digits_length]
      decide
    simp only [read?, hne, Bool.false_eq_true, if_false]
    rw [digits, if_pos (all_fixed (by decide) (by decide) 32 u.value),
      value_fixed (by decide) (by decide) hlt]
  have hofNat : ofNat u.value = u := by
    cases u with
    | mk value h => simp only [ofNat, Nat.mod_eq_of_lt h]
  simp only [readDigits?, digits_length, if_true, hread, Option.map_some, hofNat]

theorem readHyphenated?_groups {a b c d e : List Char} (ha : a.length = 8) (hb : b.length = 4)
    (hc : c.length = 4) (hd : d.length = 4) (he : e.length = 12) :
    readHyphenated? (a ++ '-' :: b ++ '-' :: c ++ '-' :: d ++ '-' :: e) =
      readDigits? (a ++ b ++ c ++ d ++ e) := by
  simp [readHyphenated?, List.take_append, List.drop_append, ha, hb, hc, hd, he]
  simp (disch := omega) only [List.drop_eq_nil_of_le, List.take_nil, List.nil_append]

theorem groups_append (ds : List Char) :
    ds.take 8 ++ (ds.drop 8).take 4 ++ (ds.drop 12).take 4 ++ (ds.drop 16).take 4 ++ ds.drop 20 =
      ds := by
  have h12 := List.take_append_drop 4 (ds.drop 8)
  have h16 := List.take_append_drop 4 (ds.drop 12)
  have h20 := List.take_append_drop 4 (ds.drop 16)
  rw [List.drop_drop] at h12 h16 h20
  rw [List.append_assoc, List.append_assoc, List.append_assoc, h20, h16, h12,
    List.take_append_drop]

theorem readHyphenated?_written (u : Uuid) : readHyphenated? u.written = some u := by
  have hlen := u.digits_length
  have hread := u.readDigits?_digits
  rw [written]
  generalize u.digits = ds at *
  rw [readHyphenated?_groups (by simp [hlen]) (by simp [hlen]) (by simp [hlen]) (by simp [hlen])
    (by simp [hlen]), groups_append, hread]

theorem readDigits?_written (u : Uuid) : readDigits? u.written = none := by
  have hlen : u.written.length = 36 := by
    have := u.digits_length
    rw [written]
    generalize u.digits = ds at *
    simp [this]
  rw [readDigits?, if_neg (by rw [hlen]; decide)]

theorem ofChars?_written (u : Uuid) : ofChars? u.written = some u := by
  simp only [ofChars?, readDigits?_written, readHyphenated?_written]

end WorkQueue.Uuid

namespace WorkQueue.MessageId

theorem ofText?_text (id : MessageId) : ofText? id.text = some id := by
  simp only [ofText?, text, Uuid.ofText?, Uuid.text, String.toList_ofList, Uuid.ofChars?_written,
    Option.map_some]

theorem text_injective {a b : MessageId} (h : a.text = b.text) : a = b :=
  Option.some.inj (by rw [← ofText?_text a, ← ofText?_text b, h])

end WorkQueue.MessageId
