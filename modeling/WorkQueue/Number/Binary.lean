/-! # Binary numbers

Numbers with a binary exponent, and their rounding to a bounded count of binary digits. Rounding
goes to the nearest, a tie to the even neighbour.
-/

namespace WorkQueue

/-- The number `mantissa * 2 ^ exponent`. -/
structure Binary where
  mantissa : Nat
  exponent : Int := 0
  deriving Repr, DecidableEq

/-- How far a kind of binary number is rounded. -/
structure Precision where
  /-- The count of digits of a mantissa. -/
  digits : Nat
  /-- The least exponent. -/
  least : Int
  deriving Repr, DecidableEq

/-- Doubles have 53 digits; the infinite one stands at `2 ^ 1024`. -/
def Precision.double : Precision := ⟨53, -1074⟩

/-- The format of 80 bits has 64 digits. -/
def Precision.extended : Precision := ⟨64, -16445⟩

namespace Binary

/-- Divide by a power of two, rounding. -/
def shiftRight (n k : Nat) : Nat :=
  let unit := Nat.pow 2 k
  let twice := 2 * (n % unit)
  let q := n / unit
  if twice < unit then q
  else if unit < twice then q + 1
  else q + q % 2

def round (p : Precision) (b : Binary) : Binary :=
  let excess : Int := max ((b.mantissa.log2 + 1 : Nat) - p.digits) (p.least - b.exponent)
  if excess ≤ 0 then b
  else ⟨shiftRight b.mantissa excess.toNat, b.exponent + excess⟩

def mul (a b : Binary) : Binary :=
  ⟨a.mantissa * b.mantissa, a.exponent + b.exponent⟩

/-- The quotient of two numbers, rounded. The quotient is first taken to more digits than are
wanted, with a last digit that tells whether anything is left. -/
def quotient (p : Precision) (num den : Nat) : Binary :=
  let shift := den.log2 + p.digits + 2
  let scaled := num * Nat.pow 2 shift
  let rest := if scaled % den = 0 then 0 else 1
  round p ⟨2 * (scaled / den) + rest, -(shift + 1 : Nat)⟩

/-- A power of ten, rounded. -/
def tenTo (p : Precision) : Int → Binary
  | .ofNat n => round p ⟨Nat.pow 10 n, 0⟩
  | .negSucc n => quotient p 1 (Nat.pow 10 (n + 1))

/-- At least as large as a power of two. -/
def reaches (b : Binary) (power : Int) : Bool :=
  b.mantissa ≠ 0 && power ≤ b.exponent + b.mantissa.log2

/-- Larger than a whole number. -/
def exceeds (b : Binary) (n : Nat) : Bool :=
  n * Nat.pow 2 (-b.exponent).toNat < b.mantissa * Nat.pow 2 b.exponent.toNat

/-- The number, if it is whole. -/
def toNat? (b : Binary) : Option Nat :=
  let unit := Nat.pow 2 (-b.exponent).toNat
  if b.mantissa % unit = 0 then some (b.mantissa / unit * Nat.pow 2 b.exponent.toNat) else none

/-! ## How rounding divides -/

/-- The quotient is off by at most half. -/
theorem shiftRight_near (n k : Nat) :
    2 * n ≤ 2 * (shiftRight n k * Nat.pow 2 k) + Nat.pow 2 k
      ∧ 2 * (shiftRight n k * Nat.pow 2 k) ≤ 2 * n + Nat.pow 2 k := by
  have pos : 0 < Nat.pow 2 k := Nat.pow_pos (by decide)
  have split := Nat.div_add_mod n (Nat.pow 2 k)
  have small := Nat.mod_lt n pos
  have parity : n / Nat.pow 2 k % 2 ≤ 1 := by omega
  have comm := Nat.mul_comm (n / Nat.pow 2 k) (Nat.pow 2 k)
  simp only [shiftRight]
  split
  · omega
  · split
    · rw [Nat.add_mul]; omega
    · rw [Nat.add_mul]
      have bound := Nat.mul_le_mul_right (Nat.pow 2 k) parity
      omega

end Binary

end WorkQueue
