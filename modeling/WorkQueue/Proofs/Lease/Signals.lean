import Mathlib
import WorkQueue.Lease.Registry

/-! # Signals of a registry

Every registration makes a new signal, and a signal is fired with its entry dropped. So the signals
that are held and the fired ones never overlap, and no signal is fired twice.
-/

namespace WorkQueue.Registry

/-- Signals are made before they are used, and no two of those held or fired are the same. -/
structure Sound (r : Registry) : Prop where
  apart : (r.entries.map (·.2) ++ r.fired).Nodup
  made : ∀ signal ∈ r.entries.map (·.2) ++ r.fired, signal < r.signals

variable {r : Registry} {lease : Lease} {signal : Nat}

theorem mem_of_signal? (h : r.signal? lease = some signal) : (lease, signal) ∈ r.entries := by
  obtain ⟨⟨found, _⟩, hfind, rfl⟩ := Option.map_eq_some_iff.mp h
  obtain rfl : found = lease := by simpa using List.find?_some hfind
  exact List.mem_of_find?_eq_some hfind

theorem mem_register {other : Lease} :
    (other, signal) ∈ (r.register lease).entries ↔
      other ≠ lease ∧ (other, signal) ∈ r.entries ∨ other = lease ∧ signal = r.signals := by
  simp [register, and_comm]

theorem mem_release {other : Lease} :
    (other, signal) ∈ (r.release lease).entries ↔ other ≠ lease ∧ (other, signal) ∈ r.entries := by
  simp [release, and_comm]

theorem Sound.empty : empty.Sound where
  apart := List.nodup_nil
  made := by
    intro signal hsignal
    cases hsignal

theorem others_sublist (r : Registry) (lease : Lease) :
    ((r.entries.filter (·.1 ≠ lease)).map (·.2)).Sublist (r.entries.map (·.2)) :=
  List.filter_sublist.map _

theorem Sound.release (h : r.Sound) (lease : Lease) : (r.release lease).Sound := by
  have hpart := (r.others_sublist lease).append (List.Sublist.refl r.fired)
  constructor
  · exact h.apart.sublist hpart
  · intro signal hsignal
    exact h.made signal (hpart.subset hsignal)

theorem Sound.register (h : r.Sound) (lease : Lease) : (r.register lease).Sound := by
  have hpart := (r.others_sublist lease).append (List.Sublist.refl r.fired)
  have hperm : ((r.register lease).entries.map (·.2) ++ (r.register lease).fired).Perm
      (r.signals :: ((r.entries.filter (·.1 ≠ lease)).map (·.2) ++ r.fired)) := by
    simp only [Registry.register, List.map_append, List.map_cons, List.map_nil, List.append_assoc]
    exact List.perm_middle
  constructor
  · rw [hperm.nodup_iff, List.nodup_cons]
    refine ⟨?_, h.apart.sublist hpart⟩
    intro hmem
    exact Nat.lt_irrefl _ (h.made _ (hpart.subset hmem))
  · intro signal hsignal
    rcases List.mem_cons.mp (hperm.subset hsignal) with rfl | hmem
    · exact Nat.lt_succ_self _
    · exact Nat.lt_succ_of_lt (h.made signal (hpart.subset hmem))

theorem Sound.others (h : r.Sound) (hheld : (lease, signal) ∈ r.entries) :
    signal ∉ (r.entries.filter (·.1 ≠ lease)).map (·.2) := by
  intro hmem
  obtain ⟨⟨other, _⟩, hother, rfl⟩ := List.mem_map.mp hmem
  obtain ⟨hother, hne⟩ := List.mem_filter.mp hother
  have hsame := List.inj_on_of_nodup_map h.apart.of_append_left hheld hother rfl
  have hlease : lease = other := congrArg Prod.fst hsame
  simp [hlease] at hne

theorem Sound.held_unfired (h : r.Sound) (hheld : (lease, signal) ∈ r.entries) :
    signal ∉ r.fired := by
  intro hfired
  exact (List.nodup_append.mp h.apart).2.2 _ (List.mem_map_of_mem hheld) _ hfired rfl

theorem cancel_none (h : r.signal? lease = none) : r.cancel lease = r.release lease := by
  simp only [Registry.cancel, h]
  rfl

theorem cancel_some (h : r.signal? lease = some signal) :
    r.cancel lease = { r.release lease with fired := signal :: r.fired } := by
  simp only [Registry.cancel, h]
  rfl

theorem Sound.cancel (h : r.Sound) (lease : Lease) : (r.cancel lease).Sound := by
  cases hsignal : r.signal? lease with
  | none =>
      rw [cancel_none hsignal]
      exact h.release lease
  | some signal =>
      rw [cancel_some hsignal]
      have hheld := mem_of_signal? hsignal
      have hmem : signal ∈ r.entries.map (·.2) := List.mem_map_of_mem hheld
      have hperm : ((r.entries.filter (·.1 ≠ lease)).map (·.2) ++ signal :: r.fired).Perm
          (signal :: ((r.release lease).entries.map (·.2) ++ r.fired)) := List.perm_middle
      constructor
      · refine hperm.nodup_iff.mpr (List.nodup_cons.mpr ⟨?_, (h.release lease).apart⟩)
        intro hagain
        rcases List.mem_append.mp hagain with hother | hfired
        · exact h.others hheld hother
        · exact h.held_unfired hheld hfired
      · intro s hs
        rcases List.mem_cons.mp (hperm.subset hs) with rfl | hs
        · exact h.made s (List.mem_append_left _ hmem)
        · exact (h.release lease).made s hs

theorem fired_cancel {signal : Nat} :
    signal ∈ (r.cancel lease).fired ↔ r.signal? lease = some signal ∨ signal ∈ r.fired := by
  simp [cancel]

end WorkQueue.Registry
