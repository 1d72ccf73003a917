import WorkQueue.Text.Numeral

/-! # Fields of a cron expression

A field is a list of entries; each entry selects the values from a first to a last one in
equal steps.
-/

namespace WorkQueue.Cron

/-- The values that a field may take, and names for some of them. -/
structure Field where
  least : Nat
  most : Nat
  names : List (String × Nat) := []
  deriving Repr, DecidableEq

namespace Field

def seconds : Field := { least := 0, most := 59 }
def minutes : Field := { least := 0, most := 59 }
def hours : Field := { least := 0, most := 23 }
def daysOfMonth : Field := { least := 1, most := 31 }

def months : Field where
  least := 1
  most := 12
  names := [
    ("jan", 1), ("january", 1), ("feb", 2), ("february", 2), ("mar", 3), ("march", 3),
    ("apr", 4), ("april", 4), ("may", 5), ("jun", 6), ("june", 6), ("jul", 7), ("july", 7),
    ("aug", 8), ("august", 8), ("sep", 9), ("september", 9), ("oct", 10), ("october", 10),
    ("nov", 11), ("november", 11), ("dec", 12), ("december", 12)]

/-- Days of the week count from 1 for Sunday. -/
def daysOfWeek : Field where
  least := 1
  most := 7
  names := [
    ("sun", 1), ("sunday", 1), ("mon", 2), ("monday", 2), ("tue", 3), ("tues", 3),
    ("tuesday", 3), ("wed", 4), ("wednesday", 4), ("thu", 5), ("thurs", 5), ("thursday", 5),
    ("fri", 6), ("friday", 6), ("sat", 7), ("saturday", 7)]

def years : Field := { least := 1970, most := 2100 }

def admits (f : Field) (n : Nat) : Bool :=
  f.least ≤ n && n ≤ f.most

/-- The value of a name in any letter case. -/
def named? (f : Field) (name : List Char) : Option Nat :=
  (f.names.find? (fun e => e.1.toList = name.map Char.toLower)).map (·.2)

end Field

/-- What an entry selects, without its step. -/
inductive Selector where
  | all
  | point (n : Nat)
  | range (first last : Nat)
  | name (word : List Char)
  | nameRange (first last : List Char)
  deriving Repr, DecidableEq

/-- An entry of a field. -/
structure Entry where
  selector : Selector
  step : Option Nat := none
  deriving Repr, DecidableEq

/-- The values `first`, `first + step`, … up to `last`. -/
structure Stretch where
  first : Nat
  last : Nat
  step : Nat := 1
  deriving Repr, DecidableEq

def Stretch.covers (s : Stretch) (n : Nat) : Bool :=
  s.first ≤ n && n ≤ s.last && (n - s.first) % s.step == 0

/-- A range of two admitted values that does not descend. -/
def Field.between? (f : Field) (first last : Nat) : Option Stretch :=
  if f.admits first && f.admits last && first ≤ last then some { first, last } else none

/-- The values that a selector stands for in a field. -/
def Selector.stretch? (f : Field) : Selector → Option Stretch
  | .all => some { first := f.least, last := f.most }
  | .point n => f.between? n n
  | .range a b => f.between? a b
  | .name w => do f.between? (← f.named? w) (← f.named? w)
  | .nameRange a b => do f.between? (← f.named? a) (← f.named? b)

/-- The values that an entry stands for; a single value with a step runs to the end of the
field, and a step is at most the largest value. -/
def Entry.stretch? (f : Field) (e : Entry) : Option Stretch :=
  match e.step with
  | none => e.selector.stretch? f
  | some step =>
    if step < 1 ∨ f.most < step then none
    else
      match e.selector with
      | .point n => (f.between? n f.most).map ({ · with step })
      | selector => (selector.stretch? f).map ({ · with step })

/-- The values that a list of entries selects, in ascending order. -/
def Field.values? (f : Field) (entries : List Entry) : Option (List Nat) := do
  let stretches ← entries.mapM (·.stretch? f)
  some ((List.range (f.most + 1)).filter fun n => stretches.any (·.covers n))

end WorkQueue.Cron
