import Mathlib
import WorkQueue.Instant.Basic

/-! # The order of instants

Instants are in a linear order, a leap second after the second that it prolongs. Cutting instants to
whole microseconds never turns the order around.
-/

namespace WorkQueue.Instant

theorem lt_iff {a b : Instant} :
    a < b ↔ a.seconds < b.seconds ∨ a.seconds = b.seconds ∧ a.nanos < b.nanos := Iff.rfl

theorem le_iff {a b : Instant} :
    a ≤ b ↔ a.seconds < b.seconds ∨ a.seconds = b.seconds ∧ a.nanos ≤ b.nanos := by
  change ¬b < a ↔ _
  rw [lt_iff]
  omega

theorem eq_of_parts {a b : Instant} (hs : a.seconds = b.seconds) (hn : a.nanos = b.nanos) :
    a = b := by
  cases a
  cases b
  simp only at hs hn
  subst hs hn
  rfl

instance : LinearOrder Instant where
  le_refl a := le_iff.mpr (.inr ⟨rfl, Nat.le_refl _⟩)
  le_trans a b c hab hbc := by
    rw [le_iff] at *
    omega
  lt_iff_le_not_ge a b := by
    rw [le_iff, le_iff, lt_iff]
    omega
  le_antisymm a b hab hba := by
    rw [le_iff] at *
    exact eq_of_parts (by omega) (by omega)
  le_total a b := by
    rw [le_iff, le_iff]
    omega
  toDecidableLE := inferInstance
  toDecidableEq := inferInstance
  toDecidableLT := inferInstance

/-! ## Whole microseconds -/

theorem valid_cut {s : Int} {n : Nat} (h : Valid s n) : Valid s (n / 1000 * 1000) := by
  simp only [Valid, nanosPerSecond] at *
  omega

/-- The instant with the rest below a microsecond cut. -/
def micros (t : Instant) : Instant := ⟨t.seconds, t.nanos / 1000 * 1000, valid_cut t.valid⟩

theorem micros_seconds (t : Instant) : t.micros.seconds = t.seconds := rfl

theorem micros_nanos (t : Instant) : t.micros.nanos = t.nanos / 1000 * 1000 := rfl

theorem micros_micros (t : Instant) : t.micros.micros = t.micros :=
  eq_of_parts rfl (by simp only [micros_nanos]; omega)

theorem lt_of_micros_lt {a b : Instant} (h : a.micros < b.micros) : a < b := by
  rw [lt_iff] at *
  simp only [micros_seconds, micros_nanos] at h
  omega

theorem micros_lt_iff {a b : Instant} :
    a.micros < b.micros ↔
      a.seconds < b.seconds ∨ a.seconds = b.seconds ∧ a.nanos / 1000 < b.nanos / 1000 := by
  rw [lt_iff]
  simp only [micros_seconds, micros_nanos]
  omega

end WorkQueue.Instant
