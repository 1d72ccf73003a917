import WorkQueue.Json.Fields

/-! # Poll backoff

The wait after an empty claim doubles with every further empty claim, up to a ceiling. With
jitter a wait is drawn from the upper half of its step.
-/

namespace WorkQueue

/-- Waits in milliseconds. -/
structure BackoffPolicy where
  base : UInt64
  max : UInt64
  jitter : Bool
  deriving Repr, DecidableEq

namespace BackoffPolicy

/-- The largest word of 64 bits. -/
def top : Nat := UInt64.size - 1

/-- The base doubled `doublings` times, or the top where a factor or the product does not fit. -/
def grown (p : BackoffPolicy) (doublings : Nat) : Nat :=
  if doublings < 64 then
    let n := p.base.toNat * Nat.pow 2 doublings
    if n ≤ top then n else top
  else top

/-- The longest wait after `polls` empty claims in a row. -/
def ceiling (p : BackoffPolicy) (polls : Nat) : Nat :=
  match polls with
  | 0 => 0
  | doublings + 1 => min (p.grown doublings) p.max.toNat

/-- The shortest wait after `polls` empty claims in a row. -/
def floor (p : BackoffPolicy) (polls : Nat) : Nat :=
  let c := p.ceiling polls
  if p.jitter && 1 < c then c / 2 else c

/-- The wait that a draw picks: any draw gives a wait from the floor to the ceiling. -/
def delay (p : BackoffPolicy) (polls draw : Nat) : Nat :=
  let low := p.floor polls
  low + draw % (p.ceiling polls - low + 1)

open Json

def toJson (p : BackoffPolicy) : Json :=
  .record [("baseDelayMs", .nat p.base.toNat), ("maxDelayMs", .nat p.max.toNat),
    ("jitter", .bool p.jitter)]

def ofJson? (j : Json) : Option BackoffPolicy := do
  match ← j.fields? ["baseDelayMs", "maxDelayMs", "jitter"] with
  | [base, max, jitter] =>
    some {
      base := UInt64.ofNat (← required? (natUpTo? top) base)
      max := UInt64.ofNat (← required? (natUpTo? top) max)
      jitter := ← required? bool? jitter }
  | _ => none

end BackoffPolicy

/-- The backoff of one worker: its policy and its streak of empty claims. -/
structure PollBackoff where
  policy : BackoffPolicy
  emptyPolls : Nat := 0
  deriving Repr, DecidableEq

namespace PollBackoff

/-- Count an empty claim, up to the largest word of 32 bits, and wait. -/
def next (b : PollBackoff) (draw : Nat) : Nat × PollBackoff :=
  let polls := min (b.emptyPolls + 1) (UInt32.size - 1)
  (b.policy.delay polls draw, { b with emptyPolls := polls })

/-- A claim succeeded. -/
def reset (b : PollBackoff) : PollBackoff :=
  { b with emptyPolls := 0 }

end PollBackoff

end WorkQueue
