import WorkQueue.Yaml.Scalar
import WorkQueue.Yaml.Tag

/-! # Cutting YAML into tokens

A key need not be marked: that something is a key is known once the colon behind it is read, and
its tokens are then put where it began. Until then its beginning is kept, one for each bracket
that is open and one for the block around them.
-/

namespace WorkQueue.Yaml

/-- Where an unmarked key may have begun. -/
structure KeyStart where
  /-- The number of tokens in front. -/
  before : Nat
  line : Nat
  column : Nat
  /-- It stands where only a key can stand. -/
  required : Bool
  deriving Repr, DecidableEq

/-- A key and the colon behind it are on one line and not too far apart. -/
def KeyStart.reaches (k : KeyStart) (p : Place) : Bool :=
  k.line = p.line && p.column ≤ k.column + 1024

/-- What is known of the text that was read. -/
structure Lexer where
  /-- The tokens so far, the newest first. -/
  recent : List Token := []
  /-- The columns of the blocks that are open, the innermost first. -/
  indents : List Nat := []
  /-- An unmarked key may begin here. -/
  keyAllowed : Bool := true
  key : Option KeyStart := none
  /-- The beginnings of keys around the brackets that are open, the innermost first. -/
  outerKeys : List (Option KeyStart) := []
  deriving Repr, DecidableEq

namespace Lexer

/-- A bracket is open; indentation means nothing then. -/
def inFlow (l : Lexer) : Bool :=
  !l.outerKeys.isEmpty

def push (l : Lexer) (t : Token) : Lexer :=
  { l with recent := t :: l.recent }

/-- Put a token behind the first `before`. -/
def insert (l : Lexer) (before : Nat) (t : Token) : Lexer :=
  let later := l.recent.length - before
  { l with recent := l.recent.take later ++ t :: l.recent.drop later }

/-- Open a block at a column to the right of the block that is open, its token behind the first
`before`. -/
def indent (l : Lexer) (column before : Nat) (t : Token) : Lexer :=
  if l.inFlow || l.indents.head?.any (column ≤ ·) then l
  else { l.insert before t with indents := column :: l.indents }

/-- Close the blocks whose columns satisfy `f`, from the innermost on. -/
def dedent (l : Lexer) (f : Nat → Bool) : Lexer :=
  if l.inFlow then l
  else
    let closed := l.indents.takeWhile f
    { l with
      recent := List.replicate closed.length .blockEnd ++ l.recent
      indents := l.indents.drop closed.length }

/-- Give up the beginning of a key. -/
def dropKey? (l : Lexer) : Option Lexer :=
  if l.key.any (·.required) then none else some { l with key := none }

/-- Begin a key, if one may begin here. -/
def beginKey? (l : Lexer) (p : Place) : Option Lexer :=
  if !l.keyAllowed then some l
  else do
    let required := !l.inFlow && l.indents.head? = some p.column
    let l ← l.dropKey?
    some { l with key := some ⟨l.recent.length, p.line, p.column, required⟩ }

/-- Give up the beginnings of keys that are too far from here. -/
def expireKeys? (l : Lexer) (p : Place) : Option Lexer :=
  let late (k : Option KeyStart) : Bool := k.any fun k => !k.reaches p
  if (l.key :: l.outerKeys).any fun k => late k && k.any (·.required) then none
  else
    let kept (k : Option KeyStart) : Option KeyStart := if late k then none else k
    some { l with key := kept l.key, outerKeys := l.outerKeys.map kept }

/-- Skip what stands before a token: blanks, comments and line ends. Tabs may not stand where a
key may begin in a block. The answer tells whether a key may begin at the token. -/
def skip (inFlow keyAllowed inComment : Bool) : List Place → Bool × List Place
  | [] => (keyAllowed, [])
  | p :: ps =>
    if isBreak p.char then skip inFlow (keyAllowed || !inFlow) false ps
    else if inComment || p.char = ' ' || (p.char = '\uFEFF' && p.column = 0)
        || (p.char = '\t' && (inFlow || !keyAllowed)) then
      skip inFlow keyAllowed inComment ps
    else if p.char = '#' then skip inFlow keyAllowed true ps
    else (keyAllowed, p :: ps)

/-- An opening bracket may begin a key, and so may what follows it. -/
def openFlow? (l : Lexer) (p : Place) (t : Token) : Option Lexer := do
  let l ← l.beginKey? p
  some { l.push t with key := none, outerKeys := l.key :: l.outerKeys, keyAllowed := true }

def closeFlow? (l : Lexer) (t : Token) : Option Lexer := do
  let l ← l.dropKey?
  let l := { l.push t with keyAllowed := false }
  match l.outerKeys with
  | [] => some l
  | k :: ks => some { l with key := k, outerKeys := ks }

/-- A mark that opens a block where a key may begin. -/
def openBlock? (l : Lexer) (p : Place) (t : Token) : Option Lexer :=
  if l.inFlow then some l
  else if l.keyAllowed then some (l.indent p.column l.recent.length t)
  else none

/-- A colon ends the key whose beginning is kept; without one the key is empty. -/
def value? (l : Lexer) (p : Place) : Option Lexer :=
  match l.key with
  | some k =>
    let l := (l.insert k.before .key).indent k.column k.before .blockMapping
    some { l.push .value with key := none, keyAllowed := false }
  | none => do
    let l ← l.openBlock? p .blockMapping
    some { l.push .value with keyAllowed := !l.inFlow }

/-- A scalar, an anchor or a tag may begin a key; none begins behind it on its line. -/
def word? (l : Lexer) (p : Place) (t : Token) : Option Lexer := do
  some { (← l.beginKey? p).push t with keyAllowed := false }

/-- A directive or the mark of a document ends every block. -/
def boundary? (l : Lexer) (t : Token) : Option Lexer := do
  some { (← (l.dedent fun _ => true).dropKey?).push t with keyAllowed := false }

/-- Read the token that begins with a place. -/
def token? (l : Lexer) (p : Place) (ps : List Place) : Option (Lexer × List Place) := do
  let c := p.char
  if p.column = 0 && c = '%' then
    let (t, rest) ← directive? ps
    some (← l.boundary? t, rest)
  else if isMark '-' (p :: ps) then some (← l.boundary? .documentStart, ps.drop 2)
  else if isMark '.' (p :: ps) then some (← l.boundary? .documentEnd, ps.drop 2)
  else if c = '[' then some (← l.openFlow? p .openBracket, ps)
  else if c = '\x7b' then some (← l.openFlow? p .openBrace, ps)
  else if c = ']' then some (← l.closeFlow? .closeBracket, ps)
  else if c = '\x7d' then some (← l.closeFlow? .closeBrace, ps)
  else if c = ',' then some ({ (← l.dropKey?).push .comma with keyAllowed := true }, ps)
  else if c = '-' && endsWord ps then
    let l ← (← l.openBlock? p .blockSequence).dropKey?
    some ({ l.push .dash with keyAllowed := true }, ps)
  else if c = '?' && (l.inFlow || endsWord ps) then
    let l ← (← l.openBlock? p .blockMapping).dropKey?
    some ({ l.push .key with keyAllowed := !l.inFlow }, ps)
  else if c = ':' && (l.inFlow || endsWord ps) then some (← l.value? p, ps)
  else if c = '*' then
    let (name, rest) ← anchorName? ps
    some (← l.word? p (.alias name), rest)
  else if c = '&' then
    let (name, rest) ← anchorName? ps
    some (← l.word? p (.anchor name), rest)
  else if c = '!' then
    let (t, rest) ← tag? l.inFlow (p :: ps)
    some (← l.word? p t, rest)
  else if (c = '|' || c = '>') && !l.inFlow then
    let l ← l.dropKey?
    let (text, rest) ← block (c = '>') l.indents.head? ps
    let style := if c = '>' then .folded else .literal
    some ({ l.push (.scalar style (String.ofList text)) with keyAllowed := true }, rest)
  else if c = '\'' then
    let (text, rest) ← singleQuoted [] ps
    some (← l.word? p (.scalar .singleQuoted (String.ofList text)), rest)
  else if c = '"' then
    let (text, rest) ← doubleQuoted false [] ps
    some (← l.word? p (.scalar .doubleQuoted (String.ofList text)), rest)
  else if startsPlain l.inFlow c ps then
    let least := (l.indents.head?.map (· + 1)).getD 0
    let (text, broken, rest) ← plain l.inFlow least [] (p :: ps)
    let l ← l.word? p (.scalar .plain (String.ofList text))
    some ({ l with keyAllowed := broken }, rest)
  else none

/-- Read to the end in a bounded number of tokens. -/
def run? : Nat → Lexer → List Place → Option Lexer
  | 0, _, _ => none
  | fuel + 1, l, ps =>
    let (keyAllowed, ps) := skip l.inFlow l.keyAllowed false ps
    match ps with
    | [] => ({ l with keyAllowed }.dedent fun _ => true).dropKey?
    | p :: ps => do
      let l ← { l with keyAllowed }.expireKeys? p
      let (l, ps) ← (l.dedent (p.column < ·)).token? p ps
      run? fuel l ps

end Lexer

/-- The tokens of a text. Every token has a character of its own, but for those that the marks
of keys and the indentation put in, so their number bounds the steps. -/
def tokens? (s : String) : Option (List Token) :=
  if s.toList.all isAllowed then
    let ps := places 0 0 s.toList
    (Lexer.run? (ps.length + 1) {} ps).map (·.recent.reverse)
  else none

end WorkQueue.Yaml
