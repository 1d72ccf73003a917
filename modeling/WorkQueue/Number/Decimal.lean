import WorkQueue.Number.Binary
import WorkQueue.Text.Numeral

/-! # Decimal numbers

A number as it is spelled, with an optional point and an optional power of ten, and the ways in
which it becomes a binary number.
-/

namespace WorkQueue

structure Decimal where
  negative : Bool := false
  /-- The digits before the point. -/
  whole : List Char
  /-- The digits after the point, if there is one. -/
  decimals? : Option (List Char) := none
  /-- The power of ten, if one is given. -/
  exponent? : Option Int := none
  deriving Repr, DecidableEq, Inhabited

namespace Decimal

open Numeral

/-- The decimal notation of a whole number. -/
def ofInt (n : Int) : Decimal :=
  { negative := n < 0, whole := natural n.natAbs }

def decimals (d : Decimal) : List Char :=
  d.decimals?.getD []

def exponent (d : Decimal) : Int :=
  d.exponent?.getD 0

/-- The notation as text. -/
def written (d : Decimal) : List Char :=
  (if d.negative then ['-'] else []) ++ d.whole
    ++ (d.decimals?.elim [] fun ds => '.' :: ds)
    ++ (d.exponent?.elim [] fun e => 'e' :: integer e)

/-- Spelled with digits only. -/
def isPlain (d : Decimal) : Bool :=
  d.decimals?.isNone && d.exponent?.isNone

/-- The number that the digits before the point spell. -/
def toInt (d : Decimal) : Int :=
  if d.negative then -(value 10 d.whole) else value 10 d.whole

/-- Append digits to a number as long as they fit; what is left is the digits that do not. -/
def append (fits : (n digit : Nat) → Bool) : Nat → List Char → Nat × List Char
  | n, [] => (n, [])
  | n, c :: cs =>
    let digit := (digitValue? c).getD 0
    if fits n digit then append fits (10 * n + digit) cs else (n, c :: cs)

/-- The leading digits that fit, as a number and the power of ten it is multiplied by. Whether a
digit fits is asked anew after the point. -/
def leading (fits : (n digit : Nat) → Bool) (d : Decimal) : Nat × Int :=
  let (n, dropped) := append fits 0 d.whole
  let (n, left) := append fits n d.decimals
  (n, d.exponent + dropped.length - (d.decimals.length - left.length))

/-! ## The quick way to a double -/

/-- The double that is found by multiplying the digits that fit in 64 bits with a power of ten is
finite. A power of ten above the doubles makes the product infinite, whatever it is. -/
def isFinite (d : Decimal) : Bool :=
  let (n, e) := d.leading fun n digit => 10 * n + digit < UInt64.size
  if n = 0 ∨ e < 0 then true
  else if 308 < e then false
  else
    let product := (Binary.round .double ⟨n, 0⟩).mul (Binary.tenTo .double e)
    !(product.round .double).reaches 1024

/-! ## The careful way to a double -/

/-- A power of ten with more than five digits counts as one with five. -/
def boundExponent (d : Decimal) : Decimal :=
  let bound (e : Int) : Int := if e.natAbs < 100000 then e else if e < 0 then -10000 else 10000
  { d with exponent? := d.exponent?.map bound }

/-- The largest double, the number below `2 ^ 1024` with 53 digits. -/
def maxDouble : Nat := Nat.pow 2 1024 - Nat.pow 2 971

/-- Multiply by ten as long as the number stays in 64 bits, at most `e` times. -/
def raise : (e n : Nat) → Nat × Nat
  | 0, n => (n, 0)
  | e + 1, n => if n < UInt64.size / 10 then raise e (10 * n) else (n, e + 1)

/-- Divide by ten as long as that is exact, at most `e` times. -/
def lower : (e n : Nat) → Nat × Nat
  | 0, n => (n, 0)
  | e + 1, n => if n % 10 = 0 then lower e (n / 10) else (n, e + 1)

/-- Multiply by a power of ten in steps of a hundred, ten and one, each of them rounded. -/
def scale (b : Binary) (up : Bool) (e : Nat) : Binary :=
  let step (size : Int) (b : Binary) : Binary :=
    let unit := Binary.tenTo .extended (if up then size else -size)
    (b.mul unit).round .extended
  let b := Nat.repeat (step 100) (e / 100) b
  let b := Nat.repeat (step 10) (e % 100 / 10) b
  Nat.repeat (step 1) (e % 10) b

/-- The size of the double that is found by scaling the digits that fit in 64 bits with 64 binary
digits, and rounding the end to a double. Whatever exceeds the largest double is infinite. -/
def toDouble (d : Decimal) : Binary :=
  let (n, e) := d.boundExponent.leading fun n _ => n < (UInt64.size - 10) / 10
  if n = 0 then ⟨0, 0⟩
  else
    let (n, rest) := if 0 ≤ e then raise e.toNat n else lower e.natAbs n
    let b := scale ⟨n, 0⟩ (0 ≤ e) rest
    if b.exceeds maxDouble then ⟨1, 1024⟩ else b.round .double

end Decimal

end WorkQueue
