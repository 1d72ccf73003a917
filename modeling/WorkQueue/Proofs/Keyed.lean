import Mathlib

/-! # Entries under keys

What is found under a key of a list, where its keys are distinct and after changes that leave them
alone.
-/

namespace WorkQueue

variable {α β γ : Type} [DecidableEq β] {k : α → β} {l l' : List α}

theorem find?_map_of_key {g : α → α} (hg : ∀ a, k (g a) = k a) (l : List α) (b : β) :
    (l.map g).find? (k · = b) = (l.find? (k · = b)).map g := by
  rw [List.find?_map]
  congr 2
  funext a
  rw [Function.comp_apply, hg]

theorem find?_map_key {g : α → α} {v : α → γ} {f : γ → γ} {b : β} (hg : ∀ a, k (g a) = k a)
    (hv : ∀ a, k a = b → v (g a) = f (v a)) (l : List α) :
    ((l.map g).find? (k · = b)).map v = ((l.find? (k · = b)).map v).map f := by
  rw [find?_map_of_key hg]
  cases hfind : l.find? (k · = b) with
  | none => rfl
  | some a => exact congrArg some (hv a (by simpa using List.find?_some hfind))

theorem find?_key_perm (h : l.Perm l') (hkeys : (l.map k).Nodup) (b : β) :
    l.find? (k · = b) = l'.find? (k · = b) := by
  induction h with
  | nil => rfl
  | cons a _ ih =>
      rw [List.find?_cons, List.find?_cons, ih (List.nodup_cons.mp hkeys).2]
  | swap x y l =>
      have hne : k x ≠ k y := by
        intro heq
        simp [heq] at hkeys
      by_cases hx : k x = b
      · have hy : k y ≠ b := fun hy => hne (hx.trans hy.symm)
        simp [hx, hy]
      · simp [List.find?_cons, hx]
  | trans h _ ih ih' => rw [ih hkeys, ih' ((h.map k).nodup_iff.mp hkeys)]

theorem find?_key_of_mem (hkeys : (l.map k).Nodup) {a : α} (ha : a ∈ l) :
    l.find? (k · = k a) = some a := by
  cases hfind : l.find? (k · = k a) with
  | none => simpa using List.find?_eq_none.mp hfind a ha
  | some x =>
      have hx : k x = k a := by simpa using List.find?_some hfind
      rw [List.inj_on_of_nodup_map hkeys (List.mem_of_find?_eq_some hfind) ha hx]

end WorkQueue
