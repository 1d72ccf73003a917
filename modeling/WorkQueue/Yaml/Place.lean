/-! # Places of a YAML text

The characters of a text with the line and the column at which they stand. Line breaks are
brought to one form, so a break is one place.
-/

namespace WorkQueue.Yaml

/-- The characters that a text may hold. -/
def isAllowed (c : Char) : Bool :=
  let n := c.toNat
  n == 0x09 || n == 0x0A || n == 0x0D || (0x20 ≤ n && n ≤ 0x7E) || n == 0x85
    || (0xA0 ≤ n && n ≤ 0xFFFD) || 0x10000 ≤ n

/-- A line break; all but two of them are written `\n` here. -/
def isBreak (c : Char) : Bool :=
  c = '\n' || c = '\u2028' || c = '\u2029'

/-- A blank within a line. -/
def isGap (c : Char) : Bool :=
  c = ' ' || c = '\t'

def isSpace (c : Char) : Bool :=
  isGap c || isBreak c

/-- The characters of anchors, handles and directive names. -/
def isWord (c : Char) : Bool :=
  c.isAlphanum || c = '_' || c = '-'

/-- A character and where it stands. -/
structure Place where
  char : Char
  line : Nat
  column : Nat
  deriving Repr, DecidableEq

/-- The places of a text that begins at a line and a column. -/
def places (line column : Nat) : List Char → List Place
  | [] => []
  | '\r' :: '\n' :: cs => ⟨'\n', line, column⟩ :: places (line + 1) 0 cs
  | c :: cs =>
    if c = '\n' || c = '\r' || c = '\u0085' then ⟨'\n', line, column⟩ :: places (line + 1) 0 cs
    else if isBreak c then ⟨c, line, column⟩ :: places (line + 1) 0 cs
    else ⟨c, line, column⟩ :: places line (column + 1) cs

def characters (ps : List Place) : List Char :=
  ps.map (·.char)

/-- What is read next satisfies `f`. -/
def next (f : Char → Bool) : List Place → Bool
  | [] => false
  | p :: _ => f p.char

/-- The line ends here. -/
def endsLine : List Place → Bool
  | [] => true
  | p :: _ => isBreak p.char

/-- A word ends here. -/
def endsWord : List Place → Bool
  | [] => true
  | p :: _ => isSpace p.char

/-- A line begins here with three times the character and then the end of a word. -/
def isMark (c : Char) : List Place → Bool
  | p :: q :: r :: ps =>
    p.column = 0 && p.char = c && q.char = c && r.char = c && endsWord ps
  | _ => false

/-- A document begins or ends here. -/
def isDocumentMark (ps : List Place) : Bool :=
  isMark '-' ps || isMark '.' ps

/-- Cut where the characters first fail `f`. -/
def span (f : Char → Bool) (ps : List Place) : List Char × List Place :=
  let (taken, rest) := ps.span (f ·.char)
  (characters taken, rest)

/-- The next line, if only blanks and a comment are left on this one. -/
def nextLine? (ps : List Place) : Option (List Place) :=
  let (_, ps) := span isGap ps
  let ps := if next (· = '#') ps then (span (!isBreak ·) ps).2 else ps
  if endsLine ps then some (ps.drop 1) else none

end WorkQueue.Yaml
