import Mathlib
import WorkQueue.Proofs.Json.Record
import WorkQueue.Proofs.Keyed
import WorkQueue.Store.Row

/-! # Headers that are written and changed

Headers read back from their column. Setting or erasing one key leaves the entries of all other keys
where they were, and keys that stand once go on to do so.
-/

namespace WorkQueue

namespace Bytes

theorem text?_ofText (s : String) : text? (ofText s) = some s := by
  simp only [text?, ofText, String.toUTF8_eq_toByteArray]
  exact dif_pos s.isValidUTF8

theorem ofJson?_toJson (b : Bytes) : ofJson? (toJson b) = some b := by
  refine Json.items?_list _ fun n _ => ?_
  have hle : n.toNat ≤ 255 := Nat.le_of_lt_succ n.toNat_lt
  rw [(Json.nat_faithful hle).reads, Option.map_some, UInt8.ofNat_toNat]

theorem plain_toJson (b : Bytes) : (toJson b).plain = true :=
  Json.plainItems_map fun _ _ => rfl

end Bytes

namespace Headers

theorem ofJson?_toJson (h : Headers) : ofJson? h.toJson = some h := by
  have hread := Json.items?_list (f := fun e => .array [.text e.1, Bytes.toJson e.2])
    (g := Json.pair? Json.text? Bytes.ofJson?) h.entries fun e _ => by
      simp only [Json.pair?, Json.text, Json.text?, Bytes.ofJson?_toJson, Option.bind_eq_bind,
        Option.bind_some]
  rw [ofJson?, toJson, hread]
  rfl

theorem plain_toJson (h : Headers) : h.toJson.plain = true := by
  refine Json.plainItems_map fun e _ => ?_
  simp only [Json.plain, Json.plainItems, Json.text, Option.isSome_some, Bytes.plain_toJson,
    Bool.and_self]

theorem ofColumn_column (h : Headers) : ofColumn h.column = .ok h := by
  simp only [ofColumn, column, Json.parse?_render h.plain_toJson, Option.bind_some,
    ofJson?_toJson]

/-! ## Looking up after a change -/

theorem getText?_setText_self (h : Headers) (key value : String) :
    (h.setText key value).getText? key = some value := by
  simp only [getText?, setText, get?_set_self, Option.bind_some, Bytes.text?_ofText]

theorem getText?_setText_of_ne (h : Headers) {key other : String} (hne : other ≠ key)
    (value : String) : (h.setText key value).getText? other = h.getText? other := by
  simp only [getText?, setText, get?_set_of_ne _ hne]

theorem find?_drop_of_ne {key other : String} (hne : other ≠ key)
    (entries : List (String × Bytes)) :
    (drop key entries).find? (·.1 = other) = entries.find? (·.1 = other) := by
  induction entries with
  | nil => rfl
  | cons e rest ih =>
      by_cases he : e.1 = key
      · simp [drop, he, hne.symm]
      · simp [drop, he, List.find?_cons, ih]

theorem get?_erase_of_ne (h : Headers) {key other : String} (hne : other ≠ key) :
    (h.erase key).get? other = h.get? other := by
  simp [get?, erase, find?_drop_of_ne hne]

/-! ## Entries of other keys -/

/-- The entries whose keys are none of those given, in their order. -/
def without (keys : List String) (h : Headers) : List (String × Bytes) :=
  h.entries.filter fun e => !keys.contains e.1

theorem without_set {keys : List String} {key : String} (hkey : key ∈ keys) (h : Headers)
    (value : Bytes) : (h.set key value).without keys = h.without keys := by
  simp only [without, set]
  induction h.entries with
  | nil => simp [put, hkey]
  | cons e rest ih =>
      by_cases he : e.1 = key
      · simp [put, he, hkey]
      · simp only [put, he, if_false, List.filter_cons, ih]

theorem without_setText {keys : List String} {key : String} (hkey : key ∈ keys) (h : Headers)
    (value : String) : (h.setText key value).without keys = h.without keys :=
  without_set hkey h _

theorem without_erase {keys : List String} {key : String} (hkey : key ∈ keys) (h : Headers) :
    (h.erase key).without keys = h.without keys := by
  simp only [without, erase]
  induction h.entries with
  | nil => rfl
  | cons e rest ih =>
      by_cases he : e.1 = key
      · simp [drop, he, hkey]
      · simp only [drop, he, if_false, List.filter_cons, ih]

/-! ## Keys -/

def keys (h : Headers) : List String := h.entries.map (·.1)

/-- No key stands twice, so a key that is erased is gone. -/
def KeysOnce (h : Headers) : Prop := h.keys.Nodup

theorem keysOnce_empty : KeysOnce .empty := List.nodup_nil

theorem mem_keys_iff {h : Headers} {key : String} : key ∈ h.keys ↔ h.get? key ≠ none := by
  simp [keys, get?]

theorem keys_put (key : String) (value : Bytes) (entries : List (String × Bytes)) :
    (put key value entries).map (·.1) =
      if key ∈ entries.map (·.1) then entries.map (·.1) else entries.map (·.1) ++ [key] := by
  induction entries with
  | nil => rfl
  | cons e rest ih =>
      by_cases he : e.1 = key
      · simp [put, he]
      · simp only [put, he, if_false, List.map_cons, ih, List.mem_cons, Ne.symm he, false_or]
        split <;> rfl

theorem keys_drop (key : String) (entries : List (String × Bytes)) :
    (drop key entries).map (·.1) = (entries.map (·.1)).erase key := by
  induction entries with
  | nil => rfl
  | cons e rest ih =>
      by_cases he : e.1 = key
      · simp [drop, he]
      · simp [drop, he, ih]

theorem KeysOnce.set {h : Headers} (hk : h.KeysOnce) (key : String) (value : Bytes) :
    (h.set key value).KeysOnce := by
  rw [KeysOnce, keys, Headers.set, keys_put]
  split
  · exact hk
  · rename_i hnew
    exact List.nodup_append.mpr ⟨hk, List.nodup_singleton key, fun a ha b hb => by
      rintro rfl
      exact hnew (List.mem_singleton.mp hb ▸ ha)⟩

theorem KeysOnce.setText {h : Headers} (hk : h.KeysOnce) (key value : String) :
    (h.setText key value).KeysOnce := hk.set key _

theorem KeysOnce.erase {h : Headers} (hk : h.KeysOnce) (key : String) :
    (h.erase key).KeysOnce := by
  rw [KeysOnce, keys, Headers.erase, keys_drop]
  exact List.Nodup.erase key hk

theorem KeysOnce.get?_erase {h : Headers} (hk : h.KeysOnce) (key : String) :
    (h.erase key).get? key = none := by
  have hgone : key ∉ (h.erase key).keys := by
    rw [keys, Headers.erase, keys_drop]
    exact List.Nodup.not_mem_erase hk
  exact not_not.mp fun hget => hgone (mem_keys_iff.mpr hget)

theorem KeysOnce.mem_iff {h : Headers} (hk : h.KeysOnce) {key : String} {value : Bytes} :
    (key, value) ∈ h.toList ↔ h.get? key = some value := by
  constructor
  · intro hmem
    rw [get?, find?_key_of_mem hk hmem, Option.map_some]
  · intro hget
    obtain ⟨e, he, rfl⟩ := Option.map_eq_some_iff.mp hget
    obtain rfl : e.1 = key := by simpa using List.find?_some he
    exact List.mem_of_find?_eq_some he

end Headers

end WorkQueue
