import WorkQueue.Instant.Basic
import WorkQueue.Text.Numeral

/-! # Written instants

An instant is written as an RFC 3339 text in UTC. Years outside 0000-9999 carry a sign, and a
leap second is written as second 60.
-/

namespace WorkQueue.Instant

open Numeral

/-- How many digits the fraction of a second gets. -/
inductive Precision where
  /-- No fraction, the rest is cut. -/
  | seconds
  /-- Always six digits, the rest is cut. -/
  | micros
  /-- None, three, six or nine digits, the fewest that are exact. -/
  | exact
  deriving Repr, DecidableEq

def writtenYear (y : Int) : List Char :=
  match y with
  | .ofNat n => if n < 10000 then fixed 10 4 n else '+' :: atLeast 4 n
  | .negSucc n => '-' :: atLeast 4 (n + 1)

def writtenDate (d : Date) : List Char :=
  writtenYear d.year ++ '-' :: fixed 10 2 d.month ++ '-' :: fixed 10 2 d.day

/-- The fraction of a second, with its point. -/
def writtenFraction (p : Precision) (nanos : Nat) : List Char :=
  match p with
  | .seconds => []
  | .micros => '.' :: fixed 10 6 (nanos / 1000)
  | .exact =>
    if nanos = 0 then []
    else if nanos % 1000000 = 0 then '.' :: fixed 10 3 (nanos / 1000000)
    else if nanos % 1000 = 0 then '.' :: fixed 10 6 (nanos / 1000)
    else '.' :: fixed 10 9 nanos

/-- The time of day; the sixtieth second is a leap second. -/
def writtenTime (p : Precision) (secondOfDay nanos : Nat) : List Char :=
  let leap := nanos / nanosPerSecond
  fixed 10 2 (secondOfDay / 3600) ++ ':' :: fixed 10 2 (secondOfDay / 60 % 60)
    ++ ':' :: fixed 10 2 (secondOfDay % 60 + leap) ++ writtenFraction p (nanos % nanosPerSecond)

def written (p : Precision) (t : Instant) : List Char :=
  writtenDate t.date ++ 'T' :: writtenTime p t.secondOfDay t.nanos ++ ['Z']

def text (p : Precision) (t : Instant) : String :=
  String.ofList (t.written p)

end WorkQueue.Instant
