import WorkQueue.Cron.Schedule

/-! # Searching fire times

The next fire time is searched forwards and the latest one backwards, day by day and then
within the day. Both stay within the years 1970 to 2100.
-/

namespace WorkQueue.Cron

namespace Fields

/-- The second of the day with three parts. -/
def secondAt (h m s : Nat) : Nat := h * 3600 + m * 60 + s

/-- The first matching second of a day that is `start` or later. -/
def firstTime? (f : Fields) (start : Nat) : Option Nat :=
  f.hours.findSome? fun h =>
    if secondAt h 59 59 < start then none
    else
      f.minutes.findSome? fun m =>
        if secondAt h m 59 < start then none
        else (f.seconds.find? fun s => start ≤ secondAt h m s).map (secondAt h m)

/-- The last matching second of a day that is `stop` or earlier. -/
def lastTime? (f : Fields) (stop : Nat) : Option Nat :=
  f.hours.reverse.findSome? fun h =>
    if stop < secondAt h 0 0 then none
    else
      f.minutes.reverse.findSome? fun m =>
        if stop < secondAt h m 0 then none
        else (f.seconds.reverse.find? fun s => secondAt h m s ≤ stop).map (secondAt h m)

/-- The first matching day among `count` days from `day` on. -/
def nextDay? (f : Fields) : (count : Nat) → (day : Int) → Option Int
  | 0, _ => none
  | count + 1, day => if f.matchesDay day then some day else f.nextDay? count (day + 1)

/-- The last matching day among `count` days from `day` back. -/
def previousDay? (f : Fields) : (count : Nat) → (day : Int) → Option Int
  | 0, _ => none
  | count + 1, day => if f.matchesDay day then some day else f.previousDay? count (day - 1)

/-- The day number of the last day of 2100. -/
def lastDay : Int := Date.dayNumber ⟨2100, 12, 31⟩

/-- The first fire time that is `second` or later. -/
def nextFrom? (f : Fields) (second : Int) : Option Int :=
  let start := max second 0
  let day := start / 86400
  let today := if f.matchesDay day then f.firstTime? (start % 86400).toNat else none
  match today with
  | some t => some (day * 86400 + t)
  | none => do
    let day ← f.nextDay? (lastDay - day).toNat (day + 1)
    let t ← f.firstTime? 0
    some (day * 86400 + t)

/-- The last fire time that is `stop` or earlier and not before `start`. -/
def latestWithin? (f : Fields) (start stop : Int) : Option Int :=
  let start := max start 0
  let stop := min stop (lastDay * 86400 + 86399)
  let day := stop / 86400
  let today := if f.matchesDay day then f.lastTime? (stop % 86400).toNat else none
  let found := match today with
    | some t => some (day * 86400 + t)
    | none => do
      let day ← f.previousDay? (day - start / 86400).toNat (day - 1)
      let t ← f.lastTime? 86399
      some (day * 86400 + t)
  match found with
  | some t => if start ≤ t then some t else none
  | none => none

end Fields

namespace Schedule

/-- The search starts at the second after an instant, in a year that is not negative. -/
def startAfter? (t : Instant) : Option Int :=
  if t.seconds + 1 < Date.yearStart 0 * 86400 then none else some (t.seconds + 1)

/-- The first fire time after an instant whose fraction is cut. -/
def nextAfter? (s : Schedule) (t : Instant) : Option Instant := do
  let start ← startAfter? t
  let second ← s.fields.nextFrom? start
  Instant.make? second 0

/-- The latest fire time after `since`, whose fraction is cut, and not after `now`. -/
def latestBetween? (s : Schedule) (since now : Instant) : Option Instant := do
  if now ≤ since then none
  let start ← startAfter? since
  let second ← s.fields.latestWithin? start now.seconds
  Instant.make? second 0

/-- The latest fire time that is not older than `lookback`. -/
def latestAtOrBefore? (s : Schedule) (now : Instant) (lookback : Span) : Option Instant := do
  let since ← now.shift? (-lookback)
  s.latestBetween? since now

/-- The slot of the current bucket, if the schedule fires inside it. -/
def dueSlot? (s : Schedule) (now : Instant) : Option Instant :=
  (s.latestAtOrBefore? now s.granularity.unit).map s.slotOf

/-- Up to `count` fire times after an instant, none at the end when there are no more. -/
def following (s : Schedule) : (count : Nat) → (t : Instant) → List (Option Instant)
  | 0, _ => []
  | count + 1, t =>
    match s.nextAfter? t with
    | some next => some next :: s.following count next
    | none => [none]

end Schedule

end WorkQueue.Cron
