import WorkQueue.Json.Basic
import WorkQueue.Text.Numeral

/-! # Reading JSON

A value is read with a bound on the number of steps; every step takes a character, so the
length of the text is bound enough.
-/

namespace WorkQueue.Json

open Numeral

def isSpace (c : Char) : Bool :=
  c = ' ' || c = '\n' || c = '\t' || c = '\r'

def skipSpace (cs : List Char) : List Char :=
  cs.dropWhile isSpace

/-- Four hexadecimal digits. -/
def readHex4? : List Char → Option (Nat × List Char)
  | a :: b :: c :: d :: cs => (read? 16 [a, b, c, d]).map fun n => (n, cs)
  | _ => none

/-- One character of a string after its opening quote. -/
inductive Piece where
  | char (c : Char)
  /-- A half of a surrogate pair, by its code unit. -/
  | half (unit : Nat)
  deriving Repr, DecidableEq

/-- The character that an escape with one letter stands for. -/
def escaped? (c : Char) : Option Char :=
  if c = '"' || c = '\\' || c = '/' then some c
  else if c = 'b' then some '\x08'
  else if c = 'f' then some '\x0c'
  else if c = 'n' then some '\n'
  else if c = 'r' then some '\r'
  else if c = 't' then some '\t'
  else none

/-- The pieces of a string up to its closing quote. -/
def readPieces? : Nat → List Char → Option (List Piece × List Char)
  | 0, _ => none
  | fuel + 1, cs =>
    match cs with
    | [] => none
    | '"' :: cs => some ([], cs)
    | '\\' :: 'u' :: cs => do
      let (n, cs) ← readHex4? cs
      let (ps, cs) ← readPieces? fuel cs
      some ((if 0xD800 ≤ n && n ≤ 0xDFFF then .half n else .char (Char.ofNat n)) :: ps, cs)
    | '\\' :: c :: cs => do
      let c ← escaped? c
      let (ps, cs) ← readPieces? fuel cs
      some (.char c :: ps, cs)
    | c :: cs =>
      if c.toNat < 32 || c = '\\' then none
      else do
        let (ps, cs) ← readPieces? fuel cs
        some (.char c :: ps, cs)

/-- Join the halves of surrogate pairs; a half that stands alone spells no text. -/
def join? : List Piece → Option (List Char)
  | [] => some []
  | .char c :: ps => (join? ps).map (c :: ·)
  | .half hi :: .half lo :: ps =>
    if hi < 0xDC00 && 0xDC00 ≤ lo then
      (join? ps).map (Char.ofNat (0x10000 + (hi - 0xD800) * 1024 + (lo - 0xDC00)) :: ·)
    else none
  | .half _ :: _ => none

/-- A string after its opening quote. -/
def readString? (cs : List Char) : Option (Option String × List Char) :=
  (readPieces? (cs.length + 1) cs).map fun (ps, rest) => ((join? ps).map String.ofList, rest)

/-- A fraction with its point, or nothing. -/
def readDecimals? : List Char → Option (Option (List Char) × List Char)
  | '.' :: cs =>
    let ds := cs.takeWhile isDecimal
    if ds.isEmpty then none else some (some ds, cs.drop ds.length)
  | cs => some (none, cs)

/-- An exponent with its letter, or nothing. -/
def readExponent? : List Char → Option (Option Int × List Char)
  | [] => some (none, [])
  | c :: cs =>
    if c = 'e' || c = 'E' then
      let (negative, digits) := match cs with
        | '+' :: cs => (false, cs)
        | '-' :: cs => (true, cs)
        | cs => (false, cs)
      let ds := digits.takeWhile isDecimal
      if ds.isEmpty then none
      else
        let e : Int := value 10 ds
        some (some (if negative then -e else e), digits.drop ds.length)
    else some (none, c :: cs)

/-- A numeral without its sign. -/
def readNumber? (negative : Bool) (cs : List Char) : Option (Json × List Char) := do
  let ds := cs.takeWhile isDecimal
  if ds.isEmpty then none
  if ds.head? = some '0' && 1 < ds.length then none
  let (decimals?, cs) ← readDecimals? (cs.drop ds.length)
  let (exponent?, cs) ← readExponent? cs
  let d : Decimal := { negative, whole := ds, decimals?, exponent? }
  if d.isPlain && !(negative && d.toInt = 0) then some (.integer d.toInt, cs)
  else some (.real d, cs)

/-- What stands after a fixed word. -/
def readWord? : (word text : List Char) → Option (List Char)
  | [], cs => some cs
  | _ :: _, [] => none
  | w :: ws, c :: cs => if w = c then readWord? ws cs else none

mutual
/-- A value, blanks before it skipped. -/
def readValue? : Nat → List Char → Option (Json × List Char)
  | 0, _ => none
  | fuel + 1, cs =>
    match skipSpace cs with
    | [] => none
    | c :: cs =>
      if c = '"' then (readString? cs).map fun (s, cs) => (.string s, cs)
      else if c = '[' then
        match skipSpace cs with
        | ']' :: cs => some (.array [], cs)
        | cs => (readItems? fuel cs).map fun (items, cs) => (.array items, cs)
      else if c = '{' then
        match skipSpace cs with
        | '}' :: cs => some (.object [], cs)
        | cs => (readMembers? fuel cs).map fun (members, cs) => (.object members, cs)
      else if c = '-' then readNumber? true cs
      else if c = 't' then (readWord? ['r', 'u', 'e'] cs).map fun cs => (.bool true, cs)
      else if c = 'f' then (readWord? ['a', 'l', 's', 'e'] cs).map fun cs => (.bool false, cs)
      else if c = 'n' then (readWord? ['u', 'l', 'l'] cs).map fun cs => (.null, cs)
      else readNumber? false (c :: cs)

/-- The items of an array and its closing bracket. -/
def readItems? : Nat → List Char → Option (List Json × List Char)
  | 0, _ => none
  | fuel + 1, cs => do
    let (j, cs) ← readValue? fuel cs
    match skipSpace cs with
    | ',' :: cs => (readItems? fuel cs).map fun (js, cs) => (j :: js, cs)
    | ']' :: cs => some ([j], cs)
    | _ => none

/-- The members of an object and its closing brace. -/
def readMembers? : Nat → List Char → Option (List (Option String × Json) × List Char)
  | 0, _ => none
  | fuel + 1, cs =>
    match skipSpace cs with
    | '"' :: cs => do
      let (k, cs) ← readString? cs
      match skipSpace cs with
      | ':' :: cs => do
        let (j, cs) ← readValue? fuel cs
        match skipSpace cs with
        | ',' :: cs => (readMembers? fuel cs).map fun (ms, cs) => ((k, j) :: ms, cs)
        | '}' :: cs => some ([(k, j)], cs)
        | _ => none
      | _ => none
    | _ => none
end

/-- Read a text that holds one value and blanks. -/
def parse? (s : String) : Option Json := do
  let cs := s.toList
  let (j, rest) ← readValue? (cs.length + 1) cs
  if (skipSpace rest).isEmpty then some j else none

end WorkQueue.Json
