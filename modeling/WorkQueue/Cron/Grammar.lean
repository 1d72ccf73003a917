import WorkQueue.Cron.Field

/-! # Grammar of cron expressions

Each reader takes what it can from the front of a text and gives back the rest. An alternative
that does not fit is passed over as if nothing had been read, and blanks may stand around
numbers, names and lists.
-/

namespace WorkQueue.Cron

open Numeral

/-- A reader of the front of a text. -/
abbrev Reader (α : Type) := List Char → Option (α × List Char)

namespace Reader

/-- The first of two readers that fits. -/
def orElse {α : Type} (p q : Reader α) : Reader α := fun cs =>
  match p cs with
  | some r => some r
  | none => q cs

def gap (cs : List Char) : List Char :=
  cs.dropWhile fun c => c = ' ' || c = '\t'

/-- One or more characters of a class, with gaps around them. -/
def word (p : Char → Bool) : Reader (List Char) := fun cs =>
  let w := (gap cs).takeWhile p
  if w.isEmpty then none else some (w, gap ((gap cs).drop w.length))

/-- A number that fits into 32 bits. -/
def ordinal : Reader Nat := fun cs =>
  match word isDecimal cs with
  | some (w, rest) => if value 10 w < UInt32.size then some (value 10 w, rest) else none
  | none => none

def name : Reader (List Char) := word Char.isAlpha

def mark (c : Char) : Reader Unit
  | d :: cs => if c = d then some ((), cs) else none
  | [] => none

/-- Two parts with a mark between them. -/
def around {α β : Type} (p : Reader α) (c : Char) (q : Reader β) : Reader (α × β) := fun cs => do
  let (a, cs) ← p cs
  let (_, cs) ← mark c cs
  let (b, cs) ← q cs
  some ((a, b), cs)

def map {α β : Type} (f : α → β) (p : Reader α) : Reader β := fun cs =>
  (p cs).map fun (a, rest) => (f a, rest)

/-- Everything but a single name. -/
def selector : Reader Selector :=
  (map (fun _ => .all) (mark '*'))
    |>.orElse (map (fun (a, b) => .range a b) (around ordinal '-' ordinal))
    |>.orElse (map .point ordinal)
    |>.orElse (map (fun (a, b) => .nameRange a b) (around name '-' name))

/-- A selector that may also be a question mark, for all values. -/
def selectorOrAny : Reader Selector :=
  (map (fun _ => .all) (mark '?')).orElse selector

def entry (s : Reader Selector) : Reader Entry :=
  (map (fun (sel, step) => ⟨sel, some step⟩) (around s '/' ordinal))
    |>.orElse (map (⟨·, none⟩) s)
    |>.orElse (map (fun w => ⟨.name w, none⟩) name)

/-- Further entries, each after a comma. -/
def furtherEntries (e : Reader Entry) : Nat → List Char → List Entry × List Char
  | 0, cs => ([], cs)
  | fuel + 1, cs =>
    match (mark ',' cs).bind fun (_, cs) => e cs with
    | some (x, rest) =>
      let (xs, rest) := furtherEntries e fuel rest
      (x :: xs, rest)
    | none => ([], cs)

/-- The values of one field. -/
def field (f : Field) (s : Reader Selector) : Reader (List Nat) := fun cs => do
  let (x, cs) ← entry s (gap cs)
  let (xs, rest) := furtherEntries (entry s) cs.length cs
  let values ← f.values? (x :: xs)
  some (values, gap rest)

end Reader

/-- The values of all fields of a schedule. -/
structure Fields where
  seconds : List Nat
  minutes : List Nat
  hours : List Nat
  daysOfMonth : List Nat
  months : List Nat
  daysOfWeek : List Nat
  years : List Nat
  deriving Repr, DecidableEq

open Reader in
/-- Six fields, a year field that may be missing, and nothing else. -/
def Fields.read? (cs : List Char) : Option Fields := do
  let (seconds, cs) ← field .seconds selector cs
  let (minutes, cs) ← field .minutes selector cs
  let (hours, cs) ← field .hours selector cs
  let (daysOfMonth, cs) ← field .daysOfMonth selectorOrAny cs
  let (months, cs) ← field .months selector cs
  let (daysOfWeek, cs) ← field .daysOfWeek selectorOrAny cs
  let (years, cs) ← (field .years selector).orElse
    (fun cs => (Field.years.values? [⟨.all, none⟩]).map (·, cs)) cs
  if cs.isEmpty then some { seconds, minutes, hours, daysOfMonth, months, daysOfWeek, years }
  else none

end WorkQueue.Cron
