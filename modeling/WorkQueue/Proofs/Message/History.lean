import Mathlib
import WorkQueue.Proofs.Message.Headers

/-! # Histories of headers

Headers are an insertion-ordered map. What they hold after any edits is told by the edits alone: the
value of a key by the last insert of it, its place by the edit with which it came in.
-/

namespace WorkQueue

/-- One change of headers. -/
inductive HeaderEdit where
  | insert (key : String) (value : Bytes)
  | remove (key : String)
  deriving Repr, DecidableEq

namespace HeaderEdit

def key : HeaderEdit → String
  | insert key _ => key
  | remove key => key

/-- The value that an edit inserts under a key. -/
def inserted? (key : String) : HeaderEdit → Option Bytes
  | insert k value => if k = key then some value else none
  | remove _ => none

/-- Make a change, with the value that it replaced or took out. -/
def apply (h : Headers) : HeaderEdit → Option Bytes × Headers
  | insert key value => h.insert key value
  | remove key => h.remove key

/-! ## What a history tells -/

/-- The value of the last insert of a key that no removal of it follows. -/
def lastInserted? (history : List HeaderEdit) (key : String) : Option Bytes :=
  (history.reverse.takeWhile (· ≠ remove key)).findSome? (·.inserted? key)

/-- How many edits had been made when a key was last absent. If it is present, the next edit is its
first insert since. -/
def lastAbsent (history : List HeaderEdit) (key : String) : Nat :=
  Nat.findGreatest (fun n => lastInserted? (history.take n) key = none) history.length

variable {history : List HeaderEdit} {key : String} {edit : HeaderEdit}

theorem lastInserted?_append (history : List HeaderEdit) (edit : HeaderEdit) (key : String) :
    lastInserted? (history ++ [edit]) key =
      if edit.key = key then edit.inserted? key else lastInserted? history key := by
  cases edit with
  | insert k value =>
      by_cases hk : k = key <;> simp [lastInserted?, inserted?, HeaderEdit.key, hk]
  | remove k =>
      by_cases hk : k = key <;> simp [lastInserted?, inserted?, HeaderEdit.key, hk]

theorem lastAbsent_of_none (h : lastInserted? history key = none) :
    lastAbsent history key = history.length :=
  Nat.findGreatest_eq (by rwa [List.take_length])

theorem lastAbsent_lt (h : lastInserted? history key ≠ none) :
    lastAbsent history key < history.length := by
  have habsent : lastInserted? (history.take (lastAbsent history key)) key = none :=
    Nat.findGreatest_spec (P := fun n => lastInserted? (history.take n) key = none)
      (Nat.zero_le history.length) rfl
  refine lt_of_le_of_ne (Nat.findGreatest_le _) fun heq => h ?_
  rwa [heq, List.take_length] at habsent

theorem lastAbsent_append (h : lastInserted? (history ++ [edit]) key ≠ none) :
    lastAbsent (history ++ [edit]) key = lastAbsent history key := by
  have hlast : (history ++ [edit]).take (history.length + 1) = history ++ [edit] :=
    List.take_of_length_le (by simp)
  have hearlier : ∀ n ≤ history.length, (history ++ [edit]).take n = history.take n :=
    fun n hn => List.take_append_of_le_length hn
  obtain ⟨hle, habsent, hpresent⟩ := Nat.findGreatest_eq_iff.mp (rfl : lastAbsent history key = _)
  rw [lastAbsent, List.length_append, List.length_singleton,
    Nat.findGreatest_of_not (by rwa [hlast]), Nat.findGreatest_eq_iff]
  refine ⟨hle, fun hne => ?_, fun n hlt hn => ?_⟩
  · rw [hearlier _ hle]
    exact habsent hne
  · rw [hearlier n hn]
    exact hpresent hlt hn

/-- A key that is present came in with an insert, right after it was last absent. -/
theorem insert_at_lastAbsent (h : lastInserted? history key ≠ none) :
    ∃ value, history[lastAbsent history key]? = some (insert key value) := by
  induction history using List.reverseRecOn with
  | nil => exact absurd rfl h
  | append_singleton history edit ih =>
      rw [lastAbsent_append h]
      by_cases hbefore : lastInserted? history key = none
      -- the last edit brought the key in
      · rw [lastAbsent_of_none hbefore, List.getElem?_concat_length]
        rw [lastInserted?_append, hbefore] at h
        cases edit with
        | insert k value =>
            obtain rfl : k = key := by_contra fun hk => h (if_neg hk)
            exact ⟨value, rfl⟩
        | remove k => exact absurd (ite_self none) h
      · rw [List.getElem?_append_left (lastAbsent_lt hbefore)]
        exact ih hbefore

end HeaderEdit

namespace Headers

open HeaderEdit

/-! ## One edit -/

variable {h : Headers} {history : List HeaderEdit}

theorem apply_answer (h : Headers) (edit : HeaderEdit) :
    (edit.apply h).1 = h.get? edit.key := by
  cases edit with
  | insert key value => rw [apply, insert_eq, HeaderEdit.key]
  | remove key => rw [apply, remove_eq, HeaderEdit.key]

theorem KeysOnce.apply (hk : h.KeysOnce) (edit : HeaderEdit) : (edit.apply h).2.KeysOnce := by
  cases edit with
  | insert key value => simpa only [HeaderEdit.apply, insert_eq] using hk.set key value
  | remove key => simpa only [HeaderEdit.apply, remove_eq] using hk.erase key

theorem KeysOnce.get?_apply (hk : h.KeysOnce) (edit : HeaderEdit) (key : String) :
    (edit.apply h).2.get? key =
      if edit.key = key then edit.inserted? key else h.get? key := by
  cases edit with
  | insert k value =>
      rw [HeaderEdit.apply, insert_eq, HeaderEdit.key, inserted?]
      by_cases hkey : k = key
      · rw [if_pos hkey, if_pos hkey, hkey, get?_set_self]
      · rw [if_neg hkey, get?_set_of_ne h (Ne.symm hkey)]
  | remove k =>
      rw [HeaderEdit.apply, remove_eq, HeaderEdit.key, inserted?]
      by_cases hkey : k = key
      · rw [if_pos hkey, hkey, hk.get?_erase]
      · rw [if_neg hkey, get?_erase_of_ne h (Ne.symm hkey)]

/-! ## All edits -/

/-- The headers after some edits, the oldest first. -/
def after (h : Headers) (edits : List HeaderEdit) : Headers :=
  edits.foldl (fun h edit => (edit.apply h).2) h

theorem after_append (h : Headers) (first second : List HeaderEdit) :
    h.after (first ++ second) = (h.after first).after second := List.foldl_append

theorem ofList_eq_after (pairs : List (String × Bytes)) :
    ofList pairs = empty.after (pairs.map fun e => .insert e.1 e.2) := by
  rw [ofList, after, List.foldl_map]
  simp only [apply, insert_eq]

/-- The headers hold what a history tells. -/
structure Shows (h : Headers) (history : List HeaderEdit) : Prop where
  once : h.KeysOnce
  found : ∀ key, h.get? key = lastInserted? history key
  ordered : h.keys.Pairwise fun a b => lastAbsent history a < lastAbsent history b

theorem Shows.empty : Shows .empty [] := ⟨keysOnce_empty, fun _ => rfl, .nil⟩

/-- A key that an edit adds was absent until now, and all others came in before. -/
theorem Shows.ordered_apply (hs : Shows h history) (edit : HeaderEdit) :
    (edit.apply h).2.keys.Pairwise fun a b => lastAbsent history a < lastAbsent history b := by
  cases edit with
  | insert key value =>
      rw [apply, insert_eq, keys, set, keys_put]
      split
      · exact hs.ordered
      · rename_i hnew
        have habsent : lastInserted? history key = none := by
          rw [← hs.found]
          exact not_not.mp fun hget => hnew (mem_keys_iff.mpr hget)
        refine List.pairwise_append.mpr
          ⟨hs.ordered, List.pairwise_singleton _ _, fun a ha b hb => ?_⟩
        rw [List.mem_singleton.mp hb, lastAbsent_of_none habsent]
        exact lastAbsent_lt (hs.found a ▸ mem_keys_iff.mp ha)
  | remove key =>
      rw [apply, remove_eq, keys, erase, keys_drop]
      exact hs.ordered.sublist List.erase_sublist

theorem Shows.step (hs : Shows h history) (edit : HeaderEdit) :
    Shows (edit.apply h).2 (history ++ [edit]) := by
  have hfound : ∀ key, (edit.apply h).2.get? key = lastInserted? (history ++ [edit]) key :=
    fun key => by rw [hs.once.get?_apply, lastInserted?_append, hs.found]
  refine ⟨hs.once.apply edit, hfound, (hs.ordered_apply edit).imp_of_mem fun {a b} ha hb hlt => ?_⟩
  rw [mem_keys_iff, hfound] at ha hb
  rwa [lastAbsent_append ha, lastAbsent_append hb]

theorem shows_after (history : List HeaderEdit) : Shows (empty.after history) history := by
  induction history using List.reverseRecOn with
  | nil => exact .empty
  | append_singleton history edit ih =>
      rw [after_append]
      exact ih.step edit

/-- Headers that are built from a list of pairs and edited in any way hold each key that is present
once, with the value last inserted and in the order in which the present keys came in. An edit gives
the value that a lookup of its key found before it. -/
theorem insertion_ordered (pairs : List (String × Bytes)) (edits : List HeaderEdit) :
    let h := (ofList pairs).after edits
    let history := pairs.map (fun e => HeaderEdit.insert e.1 e.2) ++ edits
    h.keys.Nodup ∧
      (∀ key, h.get? key = lastInserted? history key) ∧
      (∀ key value, (key, value) ∈ h.toList ↔ lastInserted? history key = some value) ∧
      (∀ e ∈ h.toList, ∃ value, history[lastAbsent history e.1]? = some (.insert e.1 value)) ∧
      h.toList.Pairwise (fun a b => lastAbsent history a.1 < lastAbsent history b.1) ∧
      (∀ edit : HeaderEdit, (edit.apply h).1 = h.get? edit.key) ∧
      (h.size : ℕ∞) = {key | lastInserted? history key ≠ none}.encard := by
  intro h history
  have hs : Shows h history := by
    have hafter : h = empty.after history := by rw [after_append, ← ofList_eq_after]
    exact hafter ▸ shows_after history
  have hmem : ∀ key value, (key, value) ∈ h.toList ↔ lastInserted? history key = some value :=
    fun key value => by rw [hs.once.mem_iff, hs.found]
  have hordered := hs.ordered
  rw [keys, List.pairwise_map] at hordered
  refine ⟨hs.once, hs.found, hmem, fun e he => ?_, hordered, h.apply_answer, ?_⟩
  · exact insert_at_lastAbsent (by rw [(hmem e.1 e.2).mp he]; exact Option.some_ne_none _)
  · have hkeys : {key | lastInserted? history key ≠ none} = (h.keys.toFinset : Set String) := by
      ext key
      rw [Set.mem_ofPred_eq, ← hs.found, ← mem_keys_iff, List.coe_toFinset, Set.mem_ofPred_eq]
    rw [hkeys, Set.encard_coe_eq_coe_finsetCard, List.toFinset_card_of_nodup hs.once, keys,
      List.length_map, size]

/-- A key that was removed comes in again at the end, one that is replaced keeps its place. -/
example : ((ofList [("b", [1]), ("a", [2]), ("b", [3])]).after
    [.remove "b", .insert "a" [4], .insert "b" [5]]).toList = [("a", [4]), ("b", [5])] := by decide

end Headers

end WorkQueue
