import WorkQueue.Cron.Fault
import WorkQueue.Cron.Grammar
import WorkQueue.Instant.Basic
import WorkQueue.Text.Blank

/-! # Cron schedules

A schedule holds the values of its fields. An instant is a fire time when it is a whole second
whose parts all lie in the fields; day of month and day of week must both match.
-/

namespace WorkQueue.Cron

/-- The width of the bucket in which a fire counts as already done. -/
inductive Granularity where
  | second
  | minute
  deriving Repr, DecidableEq

namespace Granularity

def unitSeconds : Granularity → Nat
  | .second => 1
  | .minute => 60

def unit : Granularity → Span
  | .second => .second
  | .minute => .minute

def text : Granularity → String
  | .second => "second"
  | .minute => "minute"

/-- The start of the bucket of an instant. -/
def truncate (g : Granularity) (t : Instant) : Instant :=
  (Instant.make? (t.seconds - t.seconds % g.unitSeconds) 0).getD t

end Granularity

structure Schedule where
  expression : String
  fields : Fields
  granularity : Granularity
  deriving Repr, DecidableEq

namespace Fields

/-- The day lies in the year, month and day fields. -/
def matchesDay (f : Fields) (day : Int) : Bool :=
  let d := Date.ofDayNumber day
  0 ≤ d.year && f.years.contains d.year.toNat && f.months.contains d.month
    && f.daysOfMonth.contains d.day && f.daysOfWeek.contains (Date.weekday day)

/-- The second of the day lies in the hour, minute and second fields. -/
def matchesTime (f : Fields) (second : Nat) : Bool :=
  f.hours.contains (second / 3600) && f.minutes.contains (second / 60 % 60)
    && f.seconds.contains (second % 60)

/-- A second since 1970 is a fire time. -/
def Fires (f : Fields) (second : Int) : Prop :=
  f.matchesDay (second / 86400) ∧ f.matchesTime (second % 86400).toNat

instance (f : Fields) (second : Int) : Decidable (f.Fires second) := by
  unfold Fires
  infer_instance

end Fields

namespace Schedule

/-- An instant is a fire time of the schedule. -/
def Fires (s : Schedule) (t : Instant) : Prop :=
  t.nanos = 0 ∧ s.fields.Fires t.seconds

/-- Words joined by single spaces. -/
def joined (ws : List (List Char)) : List Char :=
  [' '].intercalate ws

/-- Read an expression of five, six or seven words. Five words get a `0` for the seconds. The
granularity is a minute when the first word is a number. -/
def parse (expression : String) : Except Fault Schedule :=
  let ws := Text.words Text.isBlank expression.toList
  let ws? := match ws.length with
    | 5 => some (['0'] :: ws)
    | 6 | 7 => some ws
    | _ => none
  match ws? with
  | none => .error (.fieldCount ws.length)
  | some ws =>
    match Fields.read? (joined ws) with
    | none => .error .malformed
    | some fields =>
      let literal := (ws.head?.getD []).all Numeral.isDecimal
      .ok { expression, fields, granularity := if literal then .minute else .second }

def slotOf (s : Schedule) (t : Instant) : Instant :=
  s.granularity.truncate t

end Schedule

end WorkQueue.Cron
