import WorkQueue.Number.Decimal
import WorkQueue.Text.Bytes
import WorkQueue.Text.Numeral

/-! # Cells

The values of table columns that are not text: a column of integers turns a text that is
spelled like a number into that number and keeps any other text.
-/

namespace WorkQueue

inductive Cell where
  | null
  | integer (n : Int)
  /-- A number that is no integer, `mantissa * 2 ^ exponent`. -/
  | real (mantissa exponent : Int)
  | text (s : String)
  | blob (b : Bytes)
  deriving Repr, DecidableEq

namespace Cell

open Numeral

/-- A blank of ASCII. -/
def isBlank (c : Char) : Bool :=
  c = ' ' || (9 ≤ c.toNat && c.toNat ≤ 13)

/-- A decimal number with blanks around it. -/
def decimal? (cs : List Char) : Option Decimal := do
  let sign : List Char → Bool × List Char
    | '-' :: cs => (true, cs)
    | '+' :: cs => (false, cs)
    | cs => (false, cs)
  let trimmed := ((cs.dropWhile isBlank).reverse.dropWhile isBlank).reverse
  let (negative, cs) := sign trimmed
  let (whole, cs) := cs.span isDecimal
  let (decimals?, cs) := match cs with
    | '.' :: cs => (some (cs.takeWhile isDecimal), cs.dropWhile isDecimal)
    | cs => (none, cs)
  let d : Decimal := { negative, whole, decimals? }
  if d.whole.isEmpty && d.decimals.isEmpty then none
  match cs with
  | [] => some d
  | c :: cs =>
    if c ≠ 'e' && c ≠ 'E' then none
    else
      let (negative, cs) := sign cs
      let n ← read? 10 cs
      some { d with exponent? := some (if negative then -(n : Int) else n) }

/-- A word of 64 bits with a sign. -/
def isWord (n : Int) : Bool :=
  -9223372036854775808 ≤ n && n ≤ 9223372036854775807

/-- A double put into a column of integers: whole numbers become integers, the two ends of the
words excepted. -/
def ofDouble (negative : Bool) (size : Binary) : Cell :=
  let sign (n : Nat) : Int := if negative then -(n : Int) else n
  match size.toNat?.filter (· < 9223372036854775807) with
  | some n => .integer (sign n)
  | none => .real (sign size.mantissa) size.exponent

/-- A text put into a column of integers. Digits alone spell an integer, if it is a word; any other
number is taken to the nearest double first. -/
def ofText (s : String) : Cell :=
  match decimal? s.toList with
  | none => .text s
  | some d =>
    if d.isPlain && isWord d.toInt then .integer d.toInt
    else ofDouble d.negative d.toDouble

/-- A number that the cell holds within bounds, or none for anything else. -/
def intWithin? (least most : Int) : Cell → Option Int
  | .integer n => if least ≤ n ∧ n ≤ most then some n else none
  | _ => none

/-- The mantissa and exponent of a number. -/
def number? : Cell → Option (Int × Int)
  | .integer n => some (n, 0)
  | .real m e => some (m, e)
  | _ => none

/-- The place of a kind of cell in the order of cells. -/
def kind : Cell → Nat
  | .null => 0
  | .integer _ | .real _ _ => 1
  | .text _ => 2
  | .blob _ => 3

/-- Comes before in the order of cells: null, numbers, texts, bytes. -/
def before (a b : Cell) : Bool :=
  match a, b with
  | .integer x, .integer y => x < y
  | .text x, .text y => x < y
  | _, _ =>
    match a.number?, b.number? with
    | some (m, e), some (n, f) =>
      let low := min e f
      m * Nat.pow 2 (e - low).toNat < n * Nat.pow 2 (f - low).toNat
    | _, _ => a.kind < b.kind

end Cell

end WorkQueue
