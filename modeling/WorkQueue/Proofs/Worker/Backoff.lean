import Mathlib
import WorkQueue.Worker.Backoff

/-! # How long a worker waits

The waits of a streak of empty claims double up to the longest wait. The words that hold them are
replaced by the largest one where they are too small, which is never below the longest wait. So the
doubling is exact, unless it starts from nothing: a base of zero stays zero only as long as the
factor fits into its word.
-/

namespace WorkQueue

namespace BackoffPolicy

/-- The base doubled with every empty claim of a streak but the first, up to the longest wait. -/
def doubled (p : BackoffPolicy) (k : Nat) : Nat := min (p.base.toNat * 2 ^ (k - 1)) p.max.toNat

/-- A wait is the ceiling of its step, or with jitter any from the upper half of the step. -/
structure Draws (p : BackoffPolicy) (ceiling wait : Nat) : Prop where
  le : wait ≤ ceiling
  half_le : ceiling / 2 ≤ wait
  eq_of_steady : p.jitter = false → wait = ceiling

variable {p : BackoffPolicy} {j k : Nat}

theorem max_le_top (p : BackoffPolicy) : p.max.toNat ≤ top := Nat.le_pred_of_lt p.max.toNat_lt_size

/-- As long as the factor fits its word, a product that does not is longer than any wait. -/
theorem ceiling_of_le (hpos : 1 ≤ k) (hk : k ≤ 64) : p.ceiling k = p.doubled k := by
  have hmax := p.max_le_top
  obtain ⟨d, rfl⟩ := Nat.exists_eq_add_of_le' hpos
  have hd : d < 64 := hk
  simp only [ceiling, grown, doubled, if_pos hd, Nat.pow_eq, Nat.add_sub_cancel]
  split <;> omega

theorem ceiling_of_gt (hk : 64 < k) : p.ceiling k = p.max.toNat := by
  obtain ⟨d, rfl⟩ := Nat.exists_eq_add_of_le' (Nat.zero_lt_of_lt hk)
  have hd : ¬d < 64 := by omega
  rw [ceiling, grown, if_neg hd]
  exact min_eq_right p.max_le_top

/-- No wait is longer than the smallest base doubled 64 times. -/
theorem doubled_of_gt (hbase : p.base ≠ 0) (hk : 64 < k) : p.doubled k = p.max.toNat := by
  have hpos : 0 < p.base.toNat :=
    Nat.pos_of_ne_zero fun h => hbase (UInt64.toNat.inj h)
  have hgrown : 2 ^ 64 ≤ p.base.toNat * 2 ^ (k - 1) :=
    calc 2 ^ 64 ≤ 2 ^ (k - 1) := Nat.pow_le_pow_right Nat.two_pos (by omega)
      _ ≤ p.base.toNat * 2 ^ (k - 1) := Nat.le_mul_of_pos_left _ hpos
  exact min_eq_right (p.max.toNat_lt_size.le.trans hgrown)

theorem doubled_mono (p : BackoffPolicy) (h : j ≤ k) : p.doubled j ≤ p.doubled k :=
  min_le_min_right _ <| Nat.mul_le_mul_left _ <| Nat.pow_le_pow_right Nat.two_pos <|
    Nat.sub_le_sub_right h 1

theorem floor_le_ceiling (p : BackoffPolicy) (k : Nat) : p.floor k ≤ p.ceiling k := by
  simp only [floor]
  split <;> omega

theorem delay_draws (p : BackoffPolicy) (k draw : Nat) :
    p.Draws (p.ceiling k) (p.delay k draw) := by
  have hfloor := p.floor_le_ceiling k
  have hdraw : draw % (p.ceiling k - p.floor k + 1) < p.ceiling k - p.floor k + 1 :=
    Nat.mod_lt _ (Nat.succ_pos _)
  have hhalf : p.ceiling k / 2 ≤ p.floor k := by
    simp only [floor]
    split <;> omega
  have hsteady : p.jitter = false → p.floor k = p.ceiling k := fun h => by
    simp only [floor, h, Bool.false_and, Bool.false_eq_true, if_false]
  simp only [delay]
  exact ⟨by omega, by omega, fun h => by have := hsteady h; omega⟩

end BackoffPolicy

/-! ## Streaks -/

/-- What a worker learns from a claim. -/
inductive ClaimOutcome where
  /-- There was nothing to claim, and a wait is drawn. -/
  | empty (draw : Nat)
  | found
  deriving Repr, DecidableEq

namespace ClaimOutcome

def isEmpty : ClaimOutcome → Bool
  | empty _ => true
  | found => false

end ClaimOutcome

namespace PollBackoff

/-- The backoff after the outcome of a claim. -/
def learn (b : PollBackoff) : ClaimOutcome → PollBackoff
  | .empty draw => (b.next draw).2
  | .found => b.reset

/-- The backoff of a policy after some claims, the oldest first. -/
def after (p : BackoffPolicy) (history : List ClaimOutcome) : PollBackoff :=
  history.foldl learn ⟨p, 0⟩

/-- The number of empty claims since the last one that found a message. -/
def streak (history : List ClaimOutcome) : Nat := (history.rtakeWhile (·.isEmpty)).length

theorem streak_empty (history : List ClaimOutcome) (draw : Nat) :
    streak (history ++ [.empty draw]) = streak history + 1 := by
  rw [streak, List.rtakeWhile_concat_pos _ _ _ rfl, List.length_append, List.length_singleton]
  rfl

theorem streak_found (history : List ClaimOutcome) : streak (history ++ [.found]) = 0 := by
  rw [streak, List.rtakeWhile_concat_neg _ _ _ (by decide), List.length_nil]

/-- The count of a streak stops at the largest word of 32 bits. -/
theorem after_eq (p : BackoffPolicy) (history : List ClaimOutcome) :
    after p history = ⟨p, min (streak history) (UInt32.size - 1)⟩ := by
  induction history using List.reverseRecOn with
  | nil => rfl
  | append_singleton history outcome ih =>
      rw [after, List.foldl_append, List.foldl_cons, List.foldl_nil]
      change (after p history).learn outcome = _
      rw [ih]
      cases outcome with
      | empty draw =>
          rw [streak_empty]
          simp only [learn, next, mk.injEq, true_and]
          omega
      | found =>
          rw [streak_found]
          rfl

/-- Whatever came before, the wait after the k-th empty claim of a streak is drawn up to the base
doubled k - 1 times, or up to the longest wait if that is shorter. A base of zero is the exception:
from the 65th empty claim on it waits as long as it may. -/
theorem waits_double (p : BackoffPolicy) (history : List ClaimOutcome) (draw : Nat) :
    let k := streak history + 1
    let wait := ((after p history).next draw).1
    (p.base ≠ 0 ∨ k ≤ 64 → p.Draws (p.doubled k) wait) ∧
      (p.base = 0 → 64 < k → p.Draws p.max.toNat wait) ∧
      wait ≤ p.max.toNat ∧ ∀ j ≤ k, p.doubled j ≤ p.doubled k := by
  intro k wait
  have hsize : UInt32.size = 4294967296 := rfl
  obtain ⟨polls, hpolls, hpos, hle, hlong⟩ : ∃ polls, wait = p.delay polls draw ∧ 1 ≤ polls ∧
      polls ≤ k ∧ (polls = k ∨ 64 < polls) := by
    refine ⟨min (min (streak history) (UInt32.size - 1) + 1) (UInt32.size - 1), ?_, ?_⟩
    · simp only [wait, after_eq, next]
    · omega
  have hdraws : p.Draws (p.ceiling polls) wait := hpolls ▸ p.delay_draws polls draw
  have hceiling : p.ceiling polls ≤ p.max.toNat := by
    obtain ⟨d, rfl⟩ := Nat.exists_eq_add_of_le' hpos
    exact min_le_right _ _
  refine ⟨fun h => ?_, fun hbase hk => ?_, hdraws.le.trans hceiling, fun j => p.doubled_mono⟩
  · have heq : p.ceiling polls = p.doubled k := by
      by_cases hshort : k ≤ 64
      · obtain rfl : polls = k := hlong.resolve_right (by omega)
        exact BackoffPolicy.ceiling_of_le hpos hshort
      · rw [BackoffPolicy.ceiling_of_gt (by omega),
          BackoffPolicy.doubled_of_gt (h.resolve_right hshort) (by omega)]
    exact heq ▸ hdraws
  · rwa [BackoffPolicy.ceiling_of_gt (by omega)] at hdraws

/-- A product that does not fit its word, after a streak that was broken once. -/
theorem waits_double_capped :
    let p : BackoffPolicy := ⟨3, 18446744073709551615, true⟩
    let history := .empty 0 :: .found :: List.replicate 63 (.empty 5)
    streak history + 1 = 64 ∧ p.doubled 64 = 18446744073709551615 ∧
      p.Draws 18446744073709551615 ((after p history).next 7).1 := by
  intro p history
  have hstreak : streak history + 1 = 64 := by decide +kernel
  have hdoubled : p.doubled 64 = 18446744073709551615 := by decide +kernel
  obtain ⟨hdraws, -⟩ := waits_double p history 7
  rw [hstreak, hdoubled] at hdraws
  exact ⟨hstreak, hdoubled, hdraws (.inl (by decide))⟩

/-- A worker that should not wait at all waits for a second when 64 claims were empty. -/
theorem not_forall_waits_double :
    ¬ ∀ (p : BackoffPolicy) (history : List ClaimOutcome) (draw : Nat),
      p.Draws (p.doubled (streak history + 1)) ((after p history).next draw).1 := by
  intro hall
  have hwait := (hall ⟨0, 1000, false⟩ (List.replicate 64 (.empty 0)) 0).eq_of_steady rfl
  revert hwait
  decide +kernel

end PollBackoff

end WorkQueue
