import WorkQueue.Text.Numeral
import WorkQueue.Yaml.Place
import WorkQueue.Yaml.Token

/-! # Scalars of YAML

The five ways in which a scalar is written, each with the text it stands for.
-/

namespace WorkQueue.Yaml

/-- What the blanks and line breaks between two words stand for: one break is a space, each
further one is itself, and the blanks around breaks are nothing. -/
def joined (gap : List Char) : List Char :=
  match gap.filter isBreak with
  | [] => gap
  | ['\n'] => [' ']
  | '\n' :: breaks => breaks
  | breaks => breaks

/-- Put text before what was read. -/
def preceded {α : Type} (cs : List Char) (r : List Char × α) : List Char × α :=
  (cs ++ r.1, r.2)

/-! ## Quotes -/

/-- The text up to the closing quote; `gap` was read since the last word. -/
def singleQuoted (gap : List Char) : List Place → Option (List Char × List Place)
  | [] => none
  | p :: ps =>
    if isSpace p.char then singleQuoted (gap ++ [p.char]) ps
    else if isDocumentMark (p :: ps) then none
    else if p.char = '\'' then
      match ps with
      | [] => some (joined gap, [])
      | q :: qs =>
        if q.char = '\'' then (singleQuoted [] qs).map (preceded (joined gap ++ ['\'']))
        else some (joined gap, q :: qs)
    else (singleQuoted [] ps).map (preceded (joined gap ++ [p.char]))

/-- The characters of escapes with one letter. -/
def escapes : List (Char × Char) :=
  [('0', '\x00'), ('a', '\x07'), ('b', '\x08'), ('t', '\t'), ('\t', '\t'), ('n', '\n'),
    ('v', '\x0b'), ('f', '\x0c'), ('r', '\r'), ('e', '\x1b'), (' ', ' '), ('"', '"'),
    ('/', '/'), ('\\', '\\'), ('N', '\u0085'), ('_', '\u00a0'), ('L', '\u2028'),
    ('P', '\u2029')]

/-- The number of digits in escapes by code point. -/
def escapeWidth? (c : Char) : Option Nat :=
  if c = 'x' then some 2
  else if c = 'u' then some 4
  else if c = 'U' then some 8
  else none

/-- The character with a code point of so many digits. -/
def codePoint? (width : Nat) (digits : List Char) : Option Char := do
  let n ← if digits.length = width then Numeral.read? 16 digits else none
  if n.isValidChar then some (Char.ofNat n) else none

/-- The text up to the closing quote; `gap` was read since the last word, and after an escaped
line break when `glued`. -/
def doubleQuoted (glued : Bool) (gap : List Char) (ps : List Place) :
    Option (List Char × List Place) :=
  match ps with
  | [] => none
  | p :: ps =>
    if isSpace p.char then doubleQuoted glued (gap ++ [p.char]) ps
    else if isDocumentMark (p :: ps) then none
    else
      let between := if glued then gap.filter isBreak else joined gap
      if p.char = '"' then some (between, ps)
      else if p.char = '\\' then
        match ps with
        | [] => none
        | q :: qs =>
          if isBreak q.char then (doubleQuoted true [] qs).map (preceded between)
          else
            match escapeWidth? q.char with
            | some width => do
              let c ← codePoint? width (characters (qs.take width))
              (doubleQuoted false [] (qs.drop width)).map (preceded (between ++ [c]))
            | none => do
              let c ← escapes.lookup q.char
              (doubleQuoted false [] qs).map (preceded (between ++ [c]))
      else (doubleQuoted false [] ps).map (preceded (between ++ [p.char]))
termination_by ps.length
decreasing_by all_goals simp; try omega

/-! ## Plain scalars -/

/-- The characters that brackets are made of. -/
def isBracket (c : Char) : Bool :=
  c = '[' || c = ']' || c = '\x7b' || c = '\x7d'

/-- A plain scalar begins here. -/
def startsPlain (inFlow : Bool) (c : Char) (rest : List Place) : Bool :=
  if c = '-' then !next isGap rest
  else if c = '?' || c = ':' then !inFlow && !endsWord rest
  else !isSpace c && !isBracket c && !",#&*!|>'\"%@\x60".toList.contains c

/-- The text of a plain scalar, whether its line ended before the rest, and the rest. Further
lines begin at the column `least` or after it; `gap` was read since the last word. -/
def plain (inFlow : Bool) (least : Nat) (gap : List Char) :
    List Place → Option (List Char × Bool × List Place)
  | [] => some ([], gap.any isBreak, [])
  | p :: ps =>
    if isSpace p.char then
      if p.char = '\t' && gap.any isBreak && p.column < least then none
      else plain inFlow least (gap ++ [p.char]) ps
    else if !gap.isEmpty
        && ((!inFlow && p.column < least) || isDocumentMark (p :: ps) || p.char = '#') then
      some ([], gap.any isBreak, p :: ps)
    else if inFlow && p.char = ':' && next (fun c => c = ',' || c = '?' || isBracket c) ps then
      none
    else if (p.char = ':' && endsWord ps) || (inFlow && (p.char = ',' || isBracket p.char)) then
      some ([], gap.any isBreak, p :: ps)
    else (plain inFlow least [] ps).map (preceded (joined gap ++ [p.char]))

/-! ## Block scalars -/

/-- What becomes of the line breaks at the end. -/
inductive Chomping where
  /-- None is kept. -/
  | strip
  /-- The first is kept. -/
  | clip
  | keep
  deriving Repr, DecidableEq

def chomping? : List Place → Option Chomping × List Place
  | [] => (none, [])
  | p :: ps =>
    if p.char = '+' then (some .keep, ps)
    else if p.char = '-' then (some .strip, ps)
    else (none, p :: ps)

/-- An indentation from 1 to 9, or nothing. -/
def increment? : List Place → Option (Option Nat × List Place)
  | [] => some (none, [])
  | p :: ps =>
    if p.char = '0' then none
    else if Numeral.isDecimal p.char then some (Numeral.digitValue? p.char, ps)
    else some (none, p :: ps)

/-- The line on which a block scalar begins: chomping and indentation in either order. -/
def blockHeader? (ps : List Place) : Option (Chomping × Option Nat × List Place) := do
  let (before, ps) := chomping? ps
  let (increment, ps) ← increment? ps
  let (after, ps) := if before.isNone && increment.isSome then chomping? ps else (none, ps)
  some ((before.or after).getD .clip, increment, ← nextLine? ps)

/-- The breaks of the empty lines in front, the largest column that a line reached with spaces
alone, and the rest. -/
def emptyLines (deepest : Nat) (breaks : List Char) :
    List Place → Option (List Char × Nat × List Place)
  | [] => some (breaks, deepest, [])
  | p :: ps =>
    if p.char = ' ' then emptyLines deepest breaks ps
    else if p.char = '\t' then none
    else if isBreak p.char then emptyLines (max deepest p.column) (breaks ++ [p.char]) ps
    else some (breaks, max deepest p.column, p :: ps)

/-- How far a block scalar has been read. -/
structure Block where
  text : List Char := []
  /-- The break that ended the last line with text. -/
  lineBreak : List Char := []
  /-- The breaks of the empty lines after it. -/
  breaks : List Char := []
  /-- The last line with text began with a blank. -/
  indented : Bool := false
  deriving Repr, DecidableEq

namespace Block

/-- Begin a line with its first character; a folded break between two lines that do not begin
with a blank is a space, or nothing where empty lines follow it. -/
def startLine (folded : Bool) (b : Block) (c : Char) : Block :=
  let fold := folded && b.lineBreak = ['\n'] && !b.indented && !isGap c
  let lineBreak := if !fold then b.lineBreak else if b.breaks.isEmpty then [' '] else []
  { text := b.text ++ lineBreak ++ b.breaks ++ [c], indented := isGap c }

def chomped (chomping : Chomping) (b : Block) : List Char :=
  match chomping with
  | .strip => b.text
  | .clip => b.text ++ b.lineBreak
  | .keep => b.text ++ b.lineBreak ++ b.breaks

/-- Read the lines that are indented to a column, `inLine` when within one. -/
def read? (folded : Bool) (indent : Nat) (inLine : Bool) (b : Block) :
    List Place → Option (Block × List Place)
  | [] => some (b, [])
  | p :: ps =>
    if isBreak p.char then
      if inLine then read? folded indent false { b with lineBreak := [p.char], breaks := [] } ps
      else read? folded indent false { b with breaks := b.breaks ++ [p.char] } ps
    else if inLine then read? folded indent true { b with text := b.text ++ [p.char] } ps
    else if p.column < indent && p.char = ' ' then read? folded indent false b ps
    else if p.column < indent && p.char = '\t' then none
    else if p.column = indent then
      read? folded indent true (b.startLine folded p.char) ps
    else some (b, p :: ps)

end Block

/-- The text of a block scalar after its mark. An indentation that is not given is that of the
first line with text, and more than the one around; a given one is relative to the one around. -/
def block (folded : Bool) (outer : Option Nat) (ps : List Place) :
    Option (List Char × List Place) := do
  let (chomping, increment, ps) ← blockHeader? ps
  let (b, ps) ←
    match increment with
    | some n => Block.read? folded (outer.getD 0 + n) false {} ps
    | none => do
      let (breaks, deepest, ps) ← emptyLines 0 [] ps
      let least := (outer.map (· + 1)).getD 1
      Block.read? folded (max deepest least) false { breaks } ps
  some (b.chomped chomping, ps)

end WorkQueue.Yaml
