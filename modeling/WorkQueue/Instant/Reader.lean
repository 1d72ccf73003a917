import WorkQueue.Instant.Basic
import WorkQueue.Text.Blank
import WorkQueue.Text.Numeral

/-! # Reading instants

Two readers of RFC 3339: `readStrict?` takes four digits of year and two of everything else,
`read?` also takes signed years, single digits and blanks around the parts.
-/

namespace WorkQueue.Instant

open Numeral Text

/-- Between `least` and `most` digits, as many as there are, with their value. -/
def readDigits? (least most : Nat) (cs : List Char) : Option (Nat × List Char) :=
  let ds := (cs.take most).takeWhile isDecimal
  if ds.length < least then none else some (value 10 ds, cs.drop ds.length)

def readChar? (c : Char) : List Char → Option (List Char)
  | d :: cs => if d = c then some cs else none
  | [] => none

/-- A fraction of a second in nanoseconds, digits after the ninth cut. -/
def readFraction? : List Char → Option (Nat × List Char)
  | '.' :: cs => do
    let ds := cs.takeWhile isDecimal
    if ds.isEmpty then none
    else some (value 10 ((ds ++ List.replicate 9 '0').take 9), cs.drop ds.length)
  | cs => some (0, cs)

/-- The separator of date and time. -/
def readSeparator? : List Char → Option (List Char)
  | c :: cs => if c = 'T' || c = 't' || c = ' ' then some cs else none
  | [] => none

/-- An offset from UTC in seconds; `skip` reads what stands between hours and minutes. -/
def readOffset? (skip : List Char → Option (List Char)) : List Char → Option (Int × List Char)
  | [] => none
  | c :: cs =>
    if c = 'Z' || c = 'z' then some (0, cs)
    else if c = '+' || c = '-' || c = '−' then do
      let (hours, cs) ← readDigits? 2 2 cs
      let cs ← skip cs
      let (minutes, cs) ← readDigits? 2 2 cs
      if 59 < minutes then none
      else
        let seconds : Int := hours * 3600 + minutes * 60
        some (if c = '+' then seconds else -seconds, cs)
    else none

/-- Put the parts together, where they make an instant. -/
def assemble? (year : Int) (month day hour minute second nanos : Nat) (offset : Int) :
    Option Instant :=
  if 23 < hour ∨ 59 < minute ∨ 60 < second ∨ 86400 ≤ offset ∨ offset ≤ -86400 then none
  else if second = 60 then
    ofLocal? ⟨year, month, day⟩ (hour * 3600 + minute * 60 + 59) (nanosPerSecond + nanos) offset
  else ofLocal? ⟨year, month, day⟩ (hour * 3600 + minute * 60 + second) nanos offset

/-- Read the strict form, with nothing before or after it. -/
def readStrict? (cs : List Char) : Option Instant := do
  let (year, cs) ← readDigits? 4 4 cs
  let cs ← readChar? '-' cs
  let (month, cs) ← readDigits? 2 2 cs
  let cs ← readChar? '-' cs
  let (day, cs) ← readDigits? 2 2 cs
  let cs ← readSeparator? cs
  let (hour, cs) ← readDigits? 2 2 cs
  let cs ← readChar? ':' cs
  let (minute, cs) ← readDigits? 2 2 cs
  let cs ← readChar? ':' cs
  let (second, cs) ← readDigits? 2 2 cs
  let (nanos, cs) ← readFraction? cs
  let (offset, cs) ← readOffset? (readChar? ':') cs
  if cs.isEmpty then assemble? year month day hour minute second nanos offset else none

/-- A year: up to four digits, or a sign and any number of digits. -/
def readYear? (cs : List Char) : Option (Int × List Char) :=
  match skipBlanks cs with
  | '+' :: cs => (readDigits? 1 cs.length cs).map fun (y, cs) => ((y : Int), cs)
  | '-' :: cs => (readDigits? 1 cs.length cs).map fun (y, cs) => (-(y : Int), cs)
  | cs => (readDigits? 1 4 cs).map fun (y, cs) => ((y : Int), cs)

/-- One or two digits after blanks. -/
def readPart? (cs : List Char) : Option (Nat × List Char) :=
  readDigits? 1 2 (skipBlanks cs)

/-- The offset of the generous form, which may also be the word UTC. -/
def readZone? (cs : List Char) : Option (Int × List Char) :=
  if (cs.take 3).map Char.toUpper = ['U', 'T', 'C'] then some (0, cs.drop 3)
  else readOffset? (fun cs => some (cs.dropWhile fun c => c = ':' || isBlank c)) cs

/-- Read the generous form; blanks may stand around it and between its parts. -/
def read? (cs : List Char) : Option Instant := do
  let (year, cs) ← readYear? cs
  let cs ← readChar? '-' (skipBlanks cs)
  let (month, cs) ← readPart? cs
  let cs ← readChar? '-' (skipBlanks cs)
  let (day, cs) ← readPart? cs
  let cs ← readSeparator? cs
  let (hour, cs) ← readPart? cs
  let cs ← readChar? ':' (skipBlanks cs)
  let (minute, cs) ← readPart? cs
  let cs ← readChar? ':' (skipBlanks cs)
  let (second, cs) ← readPart? cs
  let (nanos, cs) ← readFraction? cs
  let (offset, cs) ← readZone? (skipBlanks cs)
  if (skipBlanks cs).isEmpty then assemble? year month day hour minute second nanos offset
  else none

/-- Read a text in the generous form. -/
def ofText? (s : String) : Option Instant :=
  read? s.toList

end WorkQueue.Instant
