import Mathlib
import WorkQueue.Proofs.Instant.Elapsed

/-! # Readings at a pace

A clock is read again and again, and no two readings are further apart than a span of whole seconds.
Then a look back by the span from one reading reaches every whole second since the one before, leap
seconds or not.
-/

namespace WorkQueue.Instant

/-- The second instant is at most a span after the first, as the clock adds spans. -/
def Within (d : Span) (a b : Instant) : Prop := ∀ limit ∈ a.shift? d, b ≤ limit

instance (d : Span) (a b : Instant) : Decidable (Within d a b) :=
  inferInstanceAs (Decidable (∀ limit ∈ _, _))

variable {a b f start : Instant} {d : Span}

/-- A move by whole seconds keeps the fraction and leaves a leap second, which counts on the way
back only. -/
theorem shift?_seconds {k : Int} (hk : k ≠ 0) (hd : d.nanos = k * 1000000000) (a : Instant) :
    a.shift? d = make? (a.seconds + k + if k < 0 then (a.nanos : Int) / 1000000000 else 0)
      (a.nanos % 1000000000) := by
  have hwholes : d.nanos.tdiv 1000000000 = k := by
    rw [hd, Int.mul_tdiv_cancel _ (by decide)]
  have hpart : d.nanos.tmod 1000000000 = 0 := by rw [hd, Int.mul_tmod_left]
  have hmoves : (k == 0) = false := beq_eq_false_iff_ne.mpr hk
  have hnanos := a.valid.2.2.1
  simp only [nanosPerSecond] at hnanos
  simp only [shift?, hwholes, hpart, hmoves, Bool.and_false, Bool.false_and, Bool.false_eq_true,
    if_false]
  by_cases hleap : 1000000000 ≤ a.nanos
  · simp only [hleap, decide_true, Bool.not_true, Bool.false_eq_true, if_false]
    split
    · congr 1 <;> omega
    · congr 1 <;> omega
  · simp only [hleap, decide_false, Bool.not_false, if_true]
    split
    · rfl
    · congr 1
      omega

theorem exists_back {n : Nat} (hn : 0 < n) (hle : n ≤ 60) (hd : d.nanos = n * 1000000000)
    (hb : 0 ≤ b.seconds) : ∃ start, b.shift? (-d) = some start ∧ b.seconds - n ≤ start.seconds := by
  have hback : (-d).nanos = -(n : Int) * 1000000000 := by
    change -d.nanos = _
    omega
  have hvalid : Valid (b.seconds + -n + (b.nanos : Int) / 1000000000) (b.nanos % 1000000000) := by
    have := b.valid
    simp only [Valid, nanosPerSecond] at this ⊢
    omega
  refine ⟨⟨_, _, hvalid⟩, ?_, ?_⟩
  · rw [shift?_seconds (by omega) hback, if_pos (by omega), make?, dif_pos hvalid]
  · dsimp only
    omega

/-- What is later than a reading, and whole, is later than the look back from the next reading. -/
theorem Within.back_lt {n : Nat} (hn : 0 < n) (hd : d.nanos = n * 1000000000) (h : Within d a b)
    (ha : a < f) (hf : f.nanos = 0) (hfits : f.seconds + n ≤ 8210266876799)
    (hstart : b.shift? (-d) = some start) : start.seconds < f.seconds := by
  rw [lt_iff] at ha
  have hvalid : Valid (a.seconds + n + 0) (a.nanos % 1000000000) := by
    have := a.valid
    simp only [Valid, nanosPerSecond] at this ⊢
    omega
  have hlimit : a.shift? d = some ⟨_, _, hvalid⟩ := by
    rw [shift?_seconds (by omega) hd, if_neg (by omega), make?, dif_pos hvalid]
  have hback : (-d).nanos = -(n : Int) * 1000000000 := by
    change -d.nanos = _
    omega
  rw [shift?_seconds (by omega) hback, if_pos (by omega)] at hstart
  have hb := le_iff.mp (h _ hlimit)
  have hnanos := b.valid.2.2.1
  have hseconds := (make?_parts hstart).1
  simp only [nanosPerSecond] at *
  omega

end WorkQueue.Instant
