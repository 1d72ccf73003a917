import WorkQueue.Log.Pattern
import WorkQueue.Text.Alphanumeric
import WorkQueue.Text.Blank
import WorkQueue.Text.Bytes
import WorkQueue.Text.Numeral

/-! # Log filters

A filter is a list of directives. The most specific directive whose target begins the target of
an event decides whether the event is let through; an event that none speaks of is not.
-/

namespace WorkQueue.Log

inductive Level where
  | error
  | warn
  | info
  | debug
  | trace
  deriving Repr, DecidableEq

namespace Level

/-- The larger, the less important. -/
def verbosity : Level → Nat
  | .error => 1
  | .warn => 2
  | .info => 3
  | .debug => 4
  | .trace => 5

def text : Level → String
  | .error => "ERROR"
  | .warn => "WARN"
  | .info => "INFO"
  | .debug => "DEBUG"
  | .trace => "TRACE"

end Level

/-- What an event is filtered by. -/
structure Origin where
  level : Level
  target : String
  /-- The names of its fields. -/
  fields : List String
  deriving Repr, DecidableEq

structure Directive where
  /-- The largest verbosity that is let through. -/
  verbosity : Nat := 5
  target : Option String := none
  /-- Fields that an event must have. -/
  fields : List String := []
  /-- The directive speaks of what happens inside a span only. -/
  spansOnly : Bool := false
  deriving Repr, DecidableEq

namespace Directive

/-- A verbosity by its name in any letter case or by its number; no text is `error`. -/
def verbosity? (cs : List Char) : Option Nat :=
  match Numeral.readUpTo? 5 cs with
  | some n => some n
  | none =>
    let names := ["off", "error", "warn", "info", "debug", "trace"]
    if cs.isEmpty then some 1 else names.idxOf? (String.ofList (cs.map Char.toLower))

/-- How far a directive has been read; positions count the bytes from the first character that is
not blank. -/
inductive Progress where
  | start
  | word
  | span (begin : Nat)
  | field (begin : Nat)
  | fields
  | closed
  | level (begin : Nat)
  deriving Repr, DecidableEq

/-- A target may begin with a letter, a digit, or one of three marks. -/
def startsTarget (c : Char) : Bool :=
  c = '-' || c = ':' || c = '_' || Text.isAlphanumeric c

/-- The text is a real number: decimal digits with a point and an exponent, or a name. -/
def isReal (cs : List Char) : Bool :=
  let unsigned : List Char → List Char
    | '-' :: rest => rest
    | '+' :: rest => rest
    | rest => rest
  let cs := unsigned cs
  let (whole, rest) := cs.span Numeral.isDecimal
  let (part, rest) := match rest with
    | '.' :: rest => rest.span Numeral.isDecimal
    | _ => ([], rest)
  let exponent := match rest with
    | [] => true
    | c :: rest => (c = 'e' || c = 'E') && (Numeral.read? 10 (unsigned rest)).isSome
  ["inf", "infinity", "nan"].contains (String.ofList (cs.map Char.toLower))
    || (!(whole.isEmpty && part.isEmpty) && exponent)

/-- The text may stand as the value of a field: a number or a pattern. -/
def isFieldValue (cs : List Char) : Bool :=
  isReal cs || Pattern.isWellFormed cs

/-- Take the field that `text` spells, a name and perhaps a value. -/
def withField? (d : Directive) (text : List Char) : Option Directive :=
  let pieces := Text.pieces '=' text
  if text.isEmpty || !pieces[1]?.all isFieldValue then none
  else some { d with
    fields := d.fields ++ [String.ofList (pieces.headD [])]
    spansOnly := d.spansOnly || pieces[1]?.isSome }

/-- Take one character of a directive, which stands at position `i`; `slice` gives the text between
two positions. -/
def advance (slice : Nat → Nat → Option (List Char)) (d : Directive) (p : Progress) (i : Nat)
    (c : Char) : Option (Directive × Progress) :=
  let withTarget (p : Progress) : Option (Directive × Progress) :=
    (slice 0 i).map fun t => ({ d with target := some (String.ofList t) }, p)
  match p with
  | .start =>
    if c = '[' then some (d, .span (i + 1))
    else if startsTarget c then some (d, .word)
    else none
  | .word =>
    if c = '=' then withTarget (.level (i + 1))
    else if c = '[' then withTarget (.span (i + 1))
    else some (d, .word)
  | .span a =>
    if c = ']' then (slice a i).map fun _ => ({ d with spansOnly := true }, .closed)
    else if c = '\x7b' then
      (slice a i).map fun _ => ({ d with spansOnly := a < i }, .field (i + 1))
    else some (d, p)
  | .field a =>
    if c = '\x7d' then ((slice a i).bind d.withField?).map fun d => (d, .fields)
    else some (d, p)
  | .fields => if c = ']' then some (d, .closed) else none
  | .closed => if c = '=' then some (d, .level (i + 1)) else none
  | .level _ => some (d, p)

/-- Read one directive. Positions are found in the text without the blanks around it but count
in the text with them. -/
def read? (cs : List Char) : Option Directive := do
  let slice (a b : Nat) : Option (List Char) := Text.slice? a b cs
  let step : (Directive × Progress) × Nat → Char → Option ((Directive × Progress) × Nat)
    | ((d, p), i), c => (advance slice d p i c).map fun r => (r, i + c.utf8Size)
  let ((d, p), _) ← (Text.trim cs).foldlM step (({}, .start), 0)
  match p with
  | .word =>
    match verbosity? cs with
    | some verbosity => some { d with verbosity }
    | none => some { d with target := some (String.ofList cs) }
  | .level a =>
    let rest ← Text.dropBytes? a cs
    if rest.isEmpty then some d
    else (verbosity? rest).map fun verbosity => { d with verbosity }
  | .closed => some d
  | _ => none

/-- The directive speaks of an event. -/
def appliesTo (d : Directive) (o : Origin) : Bool :=
  !d.spansOnly
    && d.target.all (fun t => (Text.stripStart? t.toList o.target.toList).isSome)
    && d.fields.all o.fields.contains

/-- Longer targets are more specific, any target more than none. -/
def targetWeight (d : Directive) : Nat :=
  match d.target with
  | none => 0
  | some t => t.utf8ByteSize + 1

/-- Of two directives that speak of an event, this one, the later, decides: its target is longer,
or as long with more fields, or with as many fields that are not before the other's. -/
def outweighs (a b : Directive) : Bool :=
  b.targetWeight < a.targetWeight
    || (a.targetWeight = b.targetWeight
      && (b.fields.length < a.fields.length
        || (a.fields.length = b.fields.length && !decide (a.fields < b.fields))))

end Directive

/-- Directives in the order in which they were given. -/
abbrev Filter := List Directive

namespace Filter

/-- Read a comma-separated list of directives, empty items left out. -/
def read? (s : String) : Option Filter :=
  ((Text.pieces ',' s.toList).filter (!·.isEmpty)).mapM Directive.read?

/-- The filter of an override, else of a level, else the one that lets `info` through. -/
def ofSettings (override : Option String) (level : String) : Filter :=
  ((override.bind read?).or (read? level)).getD [{ verbosity := 3 }]

/-- The directive that decides on an event. -/
def decisive? (f : Filter) (o : Origin) : Option Directive :=
  f.foldl
    (fun best d =>
      if !d.appliesTo o then best
      else
        match best with
        | none => some d
        | some b => if d.outweighs b then some d else best)
    none

def admits (f : Filter) (o : Origin) : Bool :=
  (f.decisive? o).any fun d => o.level.verbosity ≤ d.verbosity

end Filter

end WorkQueue.Log
