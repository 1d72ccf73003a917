/-! # The proleptic Gregorian calendar

Dates and day numbers, counted from 1970-01-01. A year has a first day number, and a day
number lies in exactly one year, which is found from an estimate that is at most one off.
-/

namespace WorkQueue

/-- A calendar date; years before 1 are written 0, -1, and so on. -/
structure Date where
  year : Int
  month : Nat
  day : Nat
  deriving Repr, DecidableEq, BEq

namespace Date

def isLeapYear (y : Int) : Bool :=
  y % 4 = 0 && (y % 100 != 0 || y % 400 = 0)

def yearLength (y : Int) : Nat :=
  if isLeapYear y then 366 else 365

/-- The lengths of the months of a year. -/
def monthLengths (leap : Bool) : List Nat :=
  [31, if leap then 29 else 28, 31, 30, 31, 30, 31, 31, 30, 31, 30, 31]

/-- The number of days in a month, zero for a month that does not exist. -/
def monthLength (y : Int) (m : Nat) : Nat :=
  if m = 0 then 0 else ((monthLengths (isLeapYear y))[m - 1]?).getD 0

/-- The days of a year before month `m`. -/
def daysBefore (leap : Bool) (m : Nat) : Nat :=
  ((monthLengths leap).take (m - 1)).foldl (· + ·) 0

/-- The date is one of the calendar. -/
def Exists (d : Date) : Prop :=
  1 ≤ d.month ∧ d.month ≤ 12 ∧ 1 ≤ d.day ∧ d.day ≤ monthLength d.year d.month

instance (d : Date) : Decidable d.Exists := by
  unfold Exists
  infer_instance

/-- The day number of the first of January. -/
def yearStart (y : Int) : Int :=
  365 * (y - 1970) + ((y - 1) / 4 - 492) - ((y - 1) / 100 - 19) + ((y - 1) / 400 - 4)

/-- The year in which a day lies. -/
def yearOf (day : Int) : Int :=
  let guess := 1970 + day * 400 / 146097
  if day < yearStart guess then guess - 1
  else if yearStart (guess + 1) ≤ day then guess + 1
  else guess

/-- The month and day of month of the `n`-th day (from zero) of a run of months. -/
def placeIn : (lengths : List Nat) → (month n : Nat) → Nat × Nat
  | [], month, n => (month, n + 1)
  | len :: rest, month, n => if n < len then (month, n + 1) else placeIn rest (month + 1) (n - len)

/-- The date of a day number. -/
def ofDayNumber (day : Int) : Date :=
  let y := yearOf day
  let (m, d) := placeIn (monthLengths (isLeapYear y)) 1 (day - yearStart y).toNat
  ⟨y, m, d⟩

/-- The day number of a date. -/
def dayNumber (d : Date) : Int :=
  yearStart d.year + (daysBefore (isLeapYear d.year) d.month + (d.day - 1) : Nat)

/-- The day of the week of a day number, from 1 for Sunday to 7 for Saturday. -/
def weekday (day : Int) : Nat :=
  ((day + 4) % 7).toNat + 1

end Date

end WorkQueue
