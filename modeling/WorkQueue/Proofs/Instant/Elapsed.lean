import Mathlib
import WorkQueue.Proofs.Instant.Order

/-! # Elapsed time

A length of time is told by its nanoseconds.

The time between two readings of a clock, leap seconds counted. A clock that never goes back shows a
leap second only where one is inserted, and there the distance of instants on paper is too short.
What lies before an instant that was moved back by a span is further away than the span.
-/

namespace WorkQueue.Duration

variable {d d' : Duration}

theorem toNanos_inj : d.toNanos = d'.toNanos ↔ d = d' := by
  refine ⟨fun h => ?_, congrArg toNanos⟩
  cases d with
  | mk seconds nanos hnanos =>
      cases d' with
      | mk seconds' nanos' hnanos' =>
          simp only [toNanos, nanosPerSecond] at h hnanos hnanos'
          obtain rfl : seconds = seconds' := UInt64.toNat.inj (by omega)
          obtain rfl : nanos = nanos' := by omega
          rfl

theorem toNanos_ofMillis (ms : UInt64) : (ofMillis ms).toNanos = ms.toNat * 1000000 := by
  have hsplit := Nat.div_add_mod ms.toNat 1000
  simp only [toNanos, ofMillis, nanosPerSecond, UInt64.toNat_div, UInt64.toNat_mod,
    show UInt64.toNat 1000 = 1000 from rfl]
  omega

end WorkQueue.Duration

namespace WorkQueue.Instant

/-- A leap second is only shown after a second that a list of leap seconds names. -/
def Shown (leaps : List Int) (t : Instant) : Prop := nanosPerSecond ≤ t.nanos → t.seconds ∈ leaps

instance (leaps : List Int) (t : Instant) : Decidable (t.Shown leaps) :=
  inferInstanceAs (Decidable (_ → _))

/-- Nanoseconds since 1970, with the leap seconds after the seconds of a list. -/
def position (leaps : List Int) (t : Instant) : Int :=
  t.seconds * 1000000000 + t.nanos + leaps.countP (· < t.seconds) * 1000000000

/-- Nanoseconds from one instant to another. -/
def elapsed (leaps : List Int) (t now : Instant) : Int := now.position leaps - t.position leaps

variable {leaps : List Int}

theorem position_nil (t : Instant) : t.position [] = t.seconds * 1000000000 + t.nanos := by
  simp [position]

theorem countP_le (leaps : List Int) {a b : Int} (h : a ≤ b) :
    leaps.countP (· < a) ≤ leaps.countP (· < b) :=
  List.countP_mono_left fun _ _ hs => decide_eq_true (lt_of_lt_of_le (of_decide_eq_true hs) h)

theorem countP_lt {a b : Int} (ha : a ∈ leaps) (h : a < b) :
    leaps.countP (· < a) < leaps.countP (· < b) := by
  induction leaps with
  | nil => cases ha
  | cons s rest ih =>
      rw [List.countP_cons, List.countP_cons]
      rcases List.mem_cons.mp ha with rfl | ha
      · have := countP_le rest h.le
        simp only [decide_eq_true_eq, lt_irrefl, h, if_true, if_false]
        omega
      · have := ih ha
        by_cases hs : s < a
        · have : s < b := hs.trans h
          simp only [decide_eq_true_eq, hs, this, if_true]
          omega
        · simp only [decide_eq_true_eq, hs, if_false]
          omega

theorem position_le {a b : Instant} (ha : a.Shown leaps) (h : a ≤ b) :
    a.position leaps ≤ b.position leaps := by
  have hnanos := a.valid.2.2.1
  simp only [position, nanosPerSecond] at *
  rcases le_iff.mp h with hlt | ⟨heq, hle⟩
  · by_cases hleap : 1000000000 ≤ a.nanos
    · have := countP_lt (ha hleap) hlt
      omega
    · have := countP_le leaps hlt.le
      omega
  · rw [heq]
    omega

theorem elapsed_le {t a b : Instant} (ha : a.Shown leaps) (h : a ≤ b) :
    elapsed leaps t a ≤ elapsed leaps t b :=
  sub_le_sub_right (position_le ha h) _

theorem make?_parts {s : Int} {n : Nat} {t : Instant} (h : make? s n = some t) :
    t.seconds = s ∧ t.nanos = n := by
  rw [make?] at h
  split at h
  · obtain rfl := Option.some.inj h
    exact ⟨rfl, rfl⟩
  · cases h

theorem make?_eq_none_iff {s : Int} {n : Nat} : make? s n = none ↔ ¬ Valid s n := by
  simp [make?]

/-- Moving back stays in a leap second, or counts all nanoseconds. -/
theorem shift?_back_eq (now : Instant) {d : Span} (hd : 0 ≤ d.nanos) :
    now.shift? (-d) =
      if 1000000000 ≤ now.nanos ∧ d.nanos < 1000000000 then
        make? now.seconds (now.nanos - d.nanos).toNat
      else
        make? ((now.position [] - d.nanos) / 1000000000)
          ((now.position [] - d.nanos) % 1000000000).toNat := by
  have hwholes : (-d.nanos).tdiv 1000000000 = -(d.nanos / 1000000000) := by
    rw [Int.neg_tdiv, Int.tdiv_eq_ediv_of_nonneg hd]
  have hpart : (-d.nanos).tmod 1000000000 = -(d.nanos % 1000000000) := by
    rw [Int.neg_tmod, Int.tmod_eq_emod_of_nonneg hd]
  have hneg : (-d).nanos = -d.nanos := rfl
  simp only [shift?, hneg, hwholes, hpart, nanosPerSecond, Bool.and_eq_true, decide_eq_true_eq,
    beq_iff_eq, Bool.or_eq_true, position_nil]
  by_cases hleap : 1000000000 ≤ now.nanos
  · by_cases hshort : d.nanos < 1000000000
    · have hwithin : -(d.nanos / 1000000000) = 0 := by omega
      have hdown : -(d.nanos % 1000000000) ≤ 0 := by omega
      simp only [hleap, hshort, hwithin, hdown, and_self, true_or, if_true]
      congr 2
      omega
    · have hbefore : ¬ -(d.nanos / 1000000000) = 0 := by omega
      have hback : -(d.nanos / 1000000000) < 0 := by omega
      simp only [hleap, hshort, hbefore, and_false, false_and, if_false, decide_true, Bool.not_true,
        Bool.false_eq_true, hback, if_true]
      congr 2 <;> omega
  · simp only [hleap, false_and, if_false, decide_false, Bool.not_false, if_true]
    congr 2 <;> omega

theorem shift?_back {now cutoff : Instant} {d : Span} (hd : 0 ≤ d.nanos)
    (h : now.shift? (-d) = some cutoff) :
    (cutoff.seconds = now.seconds ∧ (cutoff.nanos : Int) = now.nanos - d.nanos ∧
        d.nanos < 1000000000 ∧ 1000000000 ≤ now.nanos) ∨
      (cutoff.nanos < 1000000000 ∧ cutoff.seconds ≤ now.seconds ∧
        cutoff.seconds * 1000000000 + cutoff.nanos =
          now.seconds * 1000000000 + now.nanos - d.nanos) := by
  have hnanos := now.valid.2.2.1
  simp only [nanosPerSecond] at hnanos
  rw [shift?_back_eq now hd] at h
  split at h
  · obtain ⟨hs, hn⟩ := make?_parts h
    omega
  · obtain ⟨hs, hn⟩ := make?_parts h
    rw [position_nil] at hs hn
    omega

/-- The first instant, in nanoseconds since 1970. -/
def first : Int := -8334601228800 * 1000000000

/-- There is no instant that far back, and no other way for the move to fail. -/
theorem shift?_back_eq_none_iff {now : Instant} {d : Span} (hd : 0 ≤ d.nanos) :
    now.shift? (-d) = none ↔ now.position [] - d.nanos < first := by
  have hvalid := now.valid
  simp only [Valid, nanosPerSecond] at hvalid
  rw [shift?_back_eq now hd]
  split <;> rw [make?_eq_none_iff] <;> simp only [Valid, nanosPerSecond, position_nil, first] <;>
    omega

theorem shift?_back_le {now cutoff : Instant} {d : Span} (hd : 0 ≤ d.nanos)
    (h : now.shift? (-d) = some cutoff) : cutoff ≤ now := by
  rw [le_iff]
  rcases shift?_back hd h with hback | hback <;> omega

theorem lt_elapsed {t now cutoff : Instant} {d : Span} (hd : 0 ≤ d.nanos)
    (hshift : now.shift? (-d) = some cutoff) (ht : t.Shown leaps) (h : t < cutoff) :
    d.nanos < elapsed leaps t now := by
  have hnanos := t.valid.2.2.1
  have hleap : t.seconds < now.seconds → 1000000000 ≤ t.nanos →
      leaps.countP (· < t.seconds) < leaps.countP (· < now.seconds) := fun hlt hleap =>
    countP_lt (ht hleap) hlt
  have hcount : t.seconds ≤ now.seconds →
      leaps.countP (· < t.seconds) ≤ leaps.countP (· < now.seconds) := countP_le leaps
  simp only [elapsed, position, nanosPerSecond] at *
  rcases shift?_back hd hshift with hback | hback <;> rcases lt_iff.mp h with hlt | hlt
  · by_cases ht : 1000000000 ≤ t.nanos
    · have := hleap (by omega) ht
      omega
    · have := hcount (by omega)
      omega
  · have := hcount (by omega)
    omega
  · by_cases ht : 1000000000 ≤ t.nanos
    · have := hleap (by omega) ht
      omega
    · have := hcount (by omega)
      omega
  · have := hcount (by omega)
    omega

theorem ofDuration?_nanos {d : Duration} {span : Span} (h : Span.ofDuration? d = some span) :
    span.nanos = d.toNanos := by
  rw [Span.ofDuration?, Span.ofNanos?] at h
  split at h
  · exact congrArg Span.nanos (Option.some.inj h).symm
  · cases h

end WorkQueue.Instant
