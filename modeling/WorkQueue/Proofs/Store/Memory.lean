import Mathlib
import WorkQueue.Proofs.Keyed
import WorkQueue.Store.Memory

/-! # Messages of the store in memory

Looking up, putting and choosing messages. Where identifiers are distinct, a message is the one that
is found under its identifier, and putting another in its place leaves the rest of the list alone.
-/

namespace WorkQueue.Memory

/-- Put a message in the place of the one with its identifier. -/
def put (s : Memory) (m : Message) : Memory := s.modify m.id fun _ => m

/-- The identifiers of the stored messages are distinct. -/
def Distinct (s : Memory) : Prop := (s.messages.map (·.id)).Nodup

variable {s : Memory}

theorem find?_some {id : MessageId} {m : Message} (h : s.find? id = some m) :
    m ∈ s.messages ∧ m.id = id :=
  ⟨List.mem_of_find?_eq_some h, by simpa using List.find?_some h⟩

theorem Distinct.eq_of_id (hd : s.Distinct) {a b : Message} (ha : a ∈ s.messages)
    (hb : b ∈ s.messages) (hid : a.id = b.id) : a = b :=
  List.inj_on_of_nodup_map hd ha hb hid

theorem Distinct.find?_of_mem (hd : s.Distinct) {m : Message} (hm : m ∈ s.messages) :
    s.find? m.id = some m := find?_key_of_mem hd hm

theorem Distinct.find?_and (hd : s.Distinct) (id : MessageId) (q : Message → Bool) :
    s.messages.find? (fun m => decide (m.id = id) && q m) = (s.find? id).filter q := by
  cases hfind : s.messages.find? (fun m => decide (m.id = id) && q m) with
  | some m =>
      have hq := List.find?_some hfind
      simp only [Bool.and_eq_true, decide_eq_true_eq] at hq
      rw [← hq.1, hd.find?_of_mem (List.mem_of_find?_eq_some hfind), Option.filter_some,
        if_pos hq.2]
  | none =>
      cases hid : s.find? id with
      | none => rfl
      | some m =>
          obtain ⟨hm, rfl⟩ := find?_some hid
          have := List.find?_eq_none.mp hfind m hm
          rw [Option.filter_some, if_neg (by simpa using this)]

theorem Distinct.modify_eq_put (hd : s.Distinct) {f : Message → Message} {m : Message}
    (hm : m ∈ s.messages) (hf : (f m).id = m.id) : s.modify m.id f = s.put (f m) := by
  simp only [put, modify, hf, Memory.mk.injEq, and_self, and_true]
  refine List.map_congr_left fun a ha => ?_
  by_cases hid : a.id = m.id
  · rw [if_pos hid, if_pos hid, hd.eq_of_id ha hm hid]
  · rw [if_neg hid, if_neg hid]

theorem best?_mem {ms : List Message} {m : Message} (h : best? ms = some m) : m ∈ ms := by
  induction ms generalizing m with
  | nil => cases h
  | cons a ms ih =>
      simp only [best?] at h
      split at h
      · obtain rfl := Option.some.inj h
        exact List.mem_cons_self
      · rename_i b hb
        split at h <;> obtain rfl := Option.some.inj h
        · exact List.mem_cons_of_mem a (ih hb)
        · exact List.mem_cons_self

/-! ## Putting a message in the place of another -/

theorem put_messages (s : Memory) (m' : Message) :
    (s.put m').messages = s.messages.map fun a => if a.id = m'.id then m' else a := rfl

theorem mem_put {m m' a : Message} (hm : m ∈ s.messages) (hid : m'.id = m.id) :
    a ∈ (s.put m').messages ↔ a = m' ∨ a ∈ s.messages ∧ a.id ≠ m.id := by
  rw [put_messages, hid, List.mem_map]
  constructor
  · rintro ⟨b, hb, rfl⟩
    by_cases h : b.id = m.id
    · exact .inl (if_pos h)
    · rw [if_neg h]
      exact .inr ⟨hb, h⟩
  · rintro (rfl | ⟨ha, hne⟩)
    · exact ⟨m, hm, if_pos rfl⟩
    · exact ⟨a, ha, if_neg hne⟩

theorem mem_put_self {m m' : Message} (hm : m ∈ s.messages) (hid : m'.id = m.id) :
    m' ∈ (s.put m').messages := (mem_put hm hid).mpr (.inl rfl)

theorem Distinct.map_put {α : Type} (hd : s.Distinct) {m m' : Message} (hm : m ∈ s.messages)
    (hid : m'.id = m.id) {g : Message → α} (hg : g m' = g m) :
    (s.put m').messages.map g = s.messages.map g := by
  rw [put_messages, List.map_map]
  refine List.map_congr_left fun a ha => ?_
  rw [Function.comp_apply]
  by_cases h : a.id = m'.id
  · rw [if_pos h, hg, hd.eq_of_id ha hm (h.trans hid)]
  · rw [if_neg h]

theorem Distinct.append (hd : s.Distinct) {m : Message} (hfresh : ∀ a ∈ s.messages, a.id ≠ m.id) :
    ((s.messages ++ [m]).map (·.id)).Nodup := by
  rw [List.map_append, List.nodup_append]
  refine ⟨hd, List.nodup_singleton _, ?_⟩
  simp only [List.mem_map, List.map_singleton, List.mem_singleton]
  rintro _ ⟨a, ha, rfl⟩ b hb hid
  exact hfresh a ha (hid.trans hb)

theorem Distinct.put (hd : s.Distinct) {m m' : Message} (hm : m ∈ s.messages)
    (hid : m'.id = m.id) : (s.put m').Distinct := by
  rw [Distinct, hd.map_put hm hid hid]
  exact hd

end WorkQueue.Memory
