import WorkQueue.Message.Owner

/-! # Lease registry

The leases that the workers of a process hold, each with the signal that cancels its handler.
An entry belongs to a lease and not to a message, so a stale claim and the claim that replaced
it never share one.
-/

namespace WorkQueue

structure Registry where
  /-- The leases held, with the numbers of their signals. -/
  entries : List (Lease × Nat)
  /-- The number of signals made. -/
  signals : Nat
  /-- The signals that were fired. -/
  fired : List Nat
  deriving Repr, DecidableEq

namespace Registry

def empty : Registry := ⟨[], 0, []⟩

instance : Inhabited Registry := ⟨empty⟩

def signal? (r : Registry) (lease : Lease) : Option Nat :=
  (r.entries.find? (·.1 = lease)).map (·.2)

def holds (r : Registry) (lease : Lease) : Bool :=
  (r.signal? lease).isSome

def leases (r : Registry) : List Lease :=
  r.entries.map (·.1)

def size (r : Registry) : Nat := r.entries.length

/-- Hold a lease with a new signal, whose number is the number of signals so far. -/
def register (r : Registry) (lease : Lease) : Registry where
  entries := r.entries.filter (·.1 ≠ lease) ++ [(lease, r.signals)]
  signals := r.signals + 1
  fired := r.fired

/-- Drop a lease without firing its signal. -/
def release (r : Registry) (lease : Lease) : Registry :=
  { r with entries := r.entries.filter (·.1 ≠ lease) }

/-- Drop a lease and fire its signal. -/
def cancel (r : Registry) (lease : Lease) : Registry where
  entries := r.entries.filter (·.1 ≠ lease)
  signals := r.signals
  fired := (r.signal? lease).toList ++ r.fired

def isFired (r : Registry) (signal : Nat) : Bool :=
  r.fired.contains signal

end Registry

end WorkQueue
