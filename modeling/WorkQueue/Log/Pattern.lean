import WorkQueue.Text.Alphanumeric
import WorkQueue.Text.Blank
import WorkQueue.Text.Numeral

/-! # Field patterns

A directive may ask that a field match a regular expression. This module says which texts are
regular expressions. Nothing is known here of character classes and letter case beyond ASCII, so
`\d`, `\pL`, `\b` and ignoring case are refused unless a flag turns Unicode off; and the text of a
pattern holds no closing brace, so no brace that is opened outside a class is ever closed.
-/

namespace WorkQueue.Log.Pattern

open WorkQueue.Text

/-- The flags under which a part of a pattern is read. -/
structure Flags where
  /-- Letters stand for both cases. -/
  ignoreCase : Bool := false
  /-- A pattern speaks of characters, not of bytes. -/
  unicode : Bool := true
  /-- Blanks and comments are skipped. -/
  verbose : Bool := false
  deriving Repr, DecidableEq

/-- Drop blanks, and comments from `#` to the end of the line. -/
def skipVerbose : (inComment : Bool) → List Char → List Char
  | _, [] => []
  | true, c :: cs => skipVerbose (c ≠ '\n') cs
  | false, c :: cs =>
    if isBlank c then skipVerbose false cs
    else if c = '#' then skipVerbose true cs
    else c :: cs

namespace Flags

/-- Drop what the flags say is skipped. -/
def skip (f : Flags) (cs : List Char) : List Char :=
  if f.verbose then skipVerbose false cs else cs

/-- The character that is looked at after a hyphen. Here the mark of a comment is skipped, but not
its text. -/
def peek? (f : Flags) (cs : List Char) : Option Char :=
  if f.verbose then
    match skipBlanks cs with
    | '#' :: rest => (skipBlanks rest).head?
    | rest => rest.head?
  else cs.head?

/-- Set the flags named before the first hyphen and clear those after it. -/
def apply (f : Flags) (names : List Char) : Flags :=
  let (on, off) := names.span (· ≠ '-')
  let value (c : Char) (old : Bool) := on.contains c || (old && !off.contains c)
  ⟨value 'i' f.ignoreCase, value 'u' f.unicode, value 'x' f.verbose⟩

/-- Flags are named at most once each, with at most one hyphen, which does not come last. -/
def areNames (names : List Char) : Bool :=
  names.all "imsUuRx-".toList.contains && decide names.Nodup && names.getLast? ≠ some '-'

end Flags

/-- What one character or one escape stands for. -/
inductive Atom where
  /-- A character; `inByte` if it was written as a byte in two digits. -/
  | char (c : Char) (inByte : Bool)
  | any
  /-- The digits, the blanks or the letters of words, or all but them. -/
  | class (negated : Bool)
  /-- A place in the text; `ofWord` if it is told by the letters of words. -/
  | place (ofWord : Bool)
  deriving Repr, DecidableEq

namespace Atom

/-- The flags allow the atom outside brackets. -/
def isAllowed (f : Flags) : Atom → Bool
  | .char c inByte => if f.unicode then !f.ignoreCase else !inByte || c.toNat < 128
  | .any => f.unicode
  | .class negated => !f.unicode && !negated
  | .place ofWord => !(f.unicode && ofWord)

/-- The flags allow the atom inside brackets. -/
def isMember (f : Flags) : Atom → Bool
  | .char c _ => if f.unicode then !f.ignoreCase else c.toNat < 128
  | .class negated => !f.unicode && !negated
  | _ => false

end Atom

/-- Read `count` hexadecimal digits. -/
def readHex (f : Flags) : (count : Nat) → List Char → Option (List Char × List Char)
  | 0, cs => some ([], cs)
  | count + 1, cs =>
    match f.skip cs with
    | c :: rest =>
      if Numeral.isDigitIn 16 c then
        (readHex f count rest).map fun (ds, rest) => (c :: ds, rest)
      else none
    | [] => none

/-- The control characters that have an escape of their own. -/
def control? : Char → Option Char
  | 'a' => some '\x07'
  | 'f' => some '\x0c'
  | 't' => some '\t'
  | 'n' => some '\n'
  | 'r' => some '\r'
  | 'v' => some '\x0b'
  | _ => none

/-- Read what follows a backslash. -/
def readEscape (f : Flags) : List Char → Option (Atom × List Char)
  | [] => none
  | c :: rest =>
    let hex (count : Nat) : Option (Atom × List Char) := do
      let (ds, rest) ← readHex f count rest
      let n := Numeral.value 16 ds
      if n.isValidChar then some (.char (Char.ofNat n) (count = 2), rest) else none
    match control? c with
    | some c => some (.char c false, rest)
    | none =>
      if c = 'x' then hex 2
      else if c = 'u' then hex 4
      else if c = 'U' then hex 8
      else if "dsw".toList.contains c then some (.class false, rest)
      else if "DSW".toList.contains c then some (.class true, rest)
      else if "bB<>".toList.contains c then some (.place true, rest)
      else if "Az".toList.contains c then some (.place false, rest)
      else if c.toNat < 128 && !c.isAlphanum then some (.char c false, rest)
      else none

/-! ## Nesting -/

/-- How deep a row of parts nests: as its only part, or one more than the deepest. -/
def depthOfRow : List Nat → Nat
  | [] => 0
  | [d] => d
  | ds => ds.foldl max 0 + 1

/-- Patterns nest at most so deep. -/
def maxDepth : Nat := 250

/-! ## Classes in brackets -/

/-- The names of the classes of ASCII. -/
def classNames : List String :=
  ["alnum", "alpha", "ascii", "blank", "cntrl", "digit", "graph", "lower", "print", "punct",
    "space", "upper", "word", "xdigit"]

/-- Read a named class such as `[:alpha:]` or `[:^alpha:]` after its bracket, and tell whether it
is negated. -/
def readNamedClass : List Char → Option (Bool × List Char)
  | ':' :: cs =>
    let (negated, cs) := match cs with
      | '^' :: rest => (true, rest)
      | _ => (false, cs)
    match cs.span (· ≠ ':') with
    | (name, ':' :: ']' :: rest) =>
      if classNames.contains (String.ofList name) then some (negated, rest) else none
    | _ => none
  | _ => none

/-- A class that is being read. -/
structure OpenClass where
  /-- How deep what stands before the last operator nests. -/
  left : Option Nat := none
  /-- How deep the members after it nest. -/
  members : List Nat := []
  deriving Repr, DecidableEq

namespace OpenClass

/-- How deep the class read so far nests, without its own brackets. -/
def depth (o : OpenClass) : Nat :=
  match o.left with
  | none => depthOfRow o.members
  | some l => max l (depthOfRow o.members) + 1

/-- Add a member that nests so deep. -/
def add (o : OpenClass) (depth : Nat) : OpenClass :=
  { o with members := depth :: o.members }

end OpenClass

/-- Read the start of a class after its bracket: a negation, and a closing bracket or hyphens that
stand for themselves. -/
def readClassStart (f : Flags) (cs : List Char) : Option (OpenClass × List Char) := do
  let cs := f.skip cs
  let (negated, cs) := match cs with
    | '^' :: rest => (true, f.skip rest)
    | _ => (false, cs)
  if negated && !f.unicode then none
  let itself (c : Char) : Bool := (Atom.char c false).isMember f
  match cs with
  | [] => none
  | ']' :: rest => if itself ']' then some (({} : OpenClass).add 0, rest) else none
  | '-' :: rest =>
    if itself '-' then some (hyphens ({} : OpenClass) (rest.length + 1) cs) else none
  | _ => some ({}, cs)
where
  hyphens (o : OpenClass) : Nat → List Char → OpenClass × List Char
    | fuel + 1, '-' :: rest => hyphens (o.add 0) fuel (f.skip rest)
    | _, cs => (o, cs)

/-- Read one end of a range. -/
def readEnd (f : Flags) : List Char → Option (Atom × List Char)
  | [] => none
  | '\\' :: rest => readEscape f rest
  | c :: rest => some (.char c false, rest)

/-- Read a member of a class, which is an atom or a range. -/
def readMember (f : Flags) (cs : List Char) : Option (List Char) := do
  let (first, rest) ← readEnd f cs
  if !first.isMember f then none
  match f.skip rest with
  | '-' :: rest =>
    if f.peek? rest = some ']' || f.peek? rest = some '-' then some ('-' :: rest)
    else
      let (last, rest) ← readEnd f (f.skip rest)
      match first, last with
      | .char a _, .char b _ => if last.isMember f && a ≤ b then some rest else none
      | _, _ => none
  | rest => some rest

/-- Read a class up to the bracket that closes the outermost of the open ones; the result tells
how deep the class nests. -/
def readClass (f : Flags) :
    (fuel : Nat) → OpenClass → List OpenClass → List Char → Option (Nat × List Char)
  | 0, _, _, _ => none
  | fuel + 1, o, outer, cs =>
    let operator := readClass f fuel { left := some o.depth } outer
    match f.skip cs with
    | [] => none
    | '[' :: rest =>
      match readNamedClass rest with
      | some (negated, rest) =>
        if if f.unicode then f.ignoreCase else negated then none
        else readClass f fuel (o.add 0) outer rest
      | none =>
        match readClassStart f rest with
        | some (inner, rest) => readClass f fuel inner (o :: outer) rest
        | none => none
    | ']' :: rest =>
      match outer with
      | [] => some (o.depth + 1, rest)
      | parent :: outer => readClass f fuel (parent.add (o.depth + 1)) outer rest
    | '&' :: '&' :: rest => operator rest
    | '-' :: '-' :: rest => operator rest
    | '~' :: '~' :: rest => operator rest
    | cs =>
      match readMember f cs with
      | some rest => readClass f fuel (o.add 0) outer rest
      | none => none

/-! ## Whole patterns -/

/-- A part of a branch. -/
structure Part where
  /-- How deep it nests. -/
  depth : Nat := 0
  /-- It may be repeated; a change of flags may not. -/
  isRepeatable : Bool := true
  deriving Repr, DecidableEq

/-- A group that is being read, or the whole pattern. -/
structure Group where
  /-- The flags that hold from here on. -/
  flags : Flags := {}
  /-- How deep the branches before the last bar nest. -/
  branches : List Nat := []
  /-- The parts after it, the last one first. -/
  parts : List Part := []
  deriving Repr, DecidableEq

namespace Group

def add (g : Group) (p : Part) : Group :=
  { g with parts := p :: g.parts }

/-- End a branch. -/
def bar (g : Group) : Group :=
  { g with branches := depthOfRow (g.parts.map Part.depth) :: g.branches, parts := [] }

def depth (g : Group) : Nat :=
  depthOfRow g.bar.branches

/-- Repeat the last part. -/
def repeatLast? (g : Group) : Option Group :=
  match g.parts with
  | p :: parts =>
    if p.isRepeatable then some { g with parts := { depth := p.depth + 1 } :: parts } else none
  | [] => none

end Group

/-- What an opening bracket begins. -/
inductive Opening where
  /-- A change of flags for the rest of the group. -/
  | change (flags : Flags)
  /-- A group with flags and perhaps a name. -/
  | group (flags : Flags) (name : Option (List Char))
  deriving Repr, DecidableEq

/-- A name begins with a letter or a low line, and goes on with numbers, points and square
brackets too. -/
def isGroupName : List Char → Bool
  | [] => false
  | c :: cs =>
    (c = '_' || isAlphabetic c) && cs.all fun c => "_.[]".toList.contains c || isAlphanumeric c

/-- Read what follows an opening bracket. -/
def readOpening (f : Flags) (cs : List Char) : Option (Opening × List Char) :=
  let named (cs : List Char) : Option (Opening × List Char) :=
    match cs.span (· ≠ '>') with
    | (name, _ :: rest) => if isGroupName name then some (.group f (some name), rest) else none
    | _ => none
  match f.skip cs with
  | '?' :: 'P' :: '<' :: rest => named rest
  | '?' :: '<' :: rest => named rest
  | '?' :: rest =>
    let (names, rest) := rest.span fun c => c ≠ ':' && c ≠ ')'
    if !Flags.areNames names then none
    else
      match rest with
      | ':' :: rest => some (.group (f.apply names) none, rest)
      | _ :: rest => if names.isEmpty then none else some (.change (f.apply names), rest)
      | [] => none
  | rest => some (.group f none, rest)

/-- Read one character or escape outside brackets. -/
def readAtom (f : Flags) : List Char → Option (Atom × List Char)
  | [] => none
  | '\\' :: rest => readEscape f rest
  | '.' :: rest => some (.any, rest)
  | c :: rest =>
    if c = '\x7b' then none
    else if c = '^' || c = '$' then some (.place false, rest)
    else some (.char c false, rest)

/-- Read the rest of a pattern, given the innermost open group, the groups around it and the names
given so far; the result tells how deep the pattern nests. -/
def readRest :
    (fuel : Nat) → Group → List Group → List (List Char) → List Char → Option Nat
  | 0, _, _, _, _ => none
  | fuel + 1, g, outer, names, cs =>
    match g.flags.skip cs with
    | [] => if outer.isEmpty then some g.depth else none
    | '(' :: rest =>
      match readOpening g.flags rest with
      | some (.change flags, rest) =>
        readRest fuel { g.add { isRepeatable := false } with flags } outer names rest
      | some (.group flags name, rest) =>
        if name.any names.contains then none
        else readRest fuel { flags } (g :: outer) (name.toList ++ names) rest
      | none => none
    | ')' :: rest =>
      match outer with
      | parent :: outer => readRest fuel (parent.add { depth := g.depth + 1 }) outer names rest
      | [] => none
    | '|' :: rest => readRest fuel g.bar outer names rest
    | '[' :: rest =>
      match readClassStart g.flags rest with
      | some (o, rest) =>
        match readClass g.flags (rest.length + 1) o [] rest with
        | some (depth, rest) => readRest fuel (g.add { depth }) outer names rest
        | none => none
      | none => none
    | c :: rest =>
      if c = '*' || c = '+' || c = '?' then
        let rest := match rest with
          | '?' :: rest => rest
          | _ => rest
        match g.repeatLast? with
        | some g => readRest fuel g outer names rest
        | none => none
      else
        match readAtom g.flags (c :: rest) with
        | some (a, rest) =>
          if a.isAllowed g.flags then readRest fuel (g.add {}) outer names rest else none
        | none => none

/-- The text is a regular expression. -/
def isWellFormed (cs : List Char) : Bool :=
  (readRest (cs.length + 1) {} [] [] cs).any (· ≤ maxDepth)

end WorkQueue.Log.Pattern
