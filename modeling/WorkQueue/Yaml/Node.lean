import WorkQueue.Yaml.Lexer

/-! # Documents of YAML

A document is a tree of nodes. Anchors are numbered: the number of an anchor is how many names
anchors had before it, and an alias speaks of the last anchor with the number that its name has
where the alias stands.
-/

namespace WorkQueue.Yaml

inductive Node where
  | scalar (anchor : Option Nat) (tag : Option Bytes) (style : Style) (text : String)
  | sequence (anchor : Option Nat) (items : List Node)
  | mapping (anchor : Option Nat) (entries : List (Node × Node))
  | alias (anchor : Nat)
  deriving Repr

namespace Node

mutual
/-- A node and all below it, each before those below it. -/
def preorder : Node → List Node
  | .scalar anchor tag style text => [.scalar anchor tag style text]
  | .sequence anchor items => .sequence anchor items :: preorderItems items
  | .mapping anchor entries => .mapping anchor entries :: preorderEntries entries
  | .alias anchor => [.alias anchor]

def preorderItems : List Node → List Node
  | [] => []
  | n :: ns => preorder n ++ preorderItems ns

def preorderEntries : List (Node × Node) → List Node
  | [] => []
  | (k, v) :: es => preorder k ++ preorder v ++ preorderEntries es
end

def anchor? : Node → Option Nat
  | .scalar anchor _ _ _ | .sequence anchor _ | .mapping anchor _ => anchor
  | .alias _ => none

/-- What a node of a document speaks of. -/
def target (document : Node) : Node → Node
  | .alias n => (document.preorder.reverse.find? (·.anchor? = some n)).getD (.alias n)
  | node => node

/-- A plain scalar without text. -/
def empty : Node :=
  .scalar none none .plain ""

end Node

/-! ## Reading -/

/-- The tokens to come and what names mean. -/
structure Reading where
  tokens : List Token
  /-- The numbers of anchors by name, the newest first. -/
  anchors : List (List Char × Nat) := []
  /-- What the handles of tags stand for, the given ones first. -/
  handles : List (List Char × Bytes) :=
    [(['!'], Bytes.ofText "!"), (['!', '!'], Bytes.ofText "tag:yaml.org,2002:")]

abbrev Read := StateT Reading Option

namespace Read

def peek : Read (Option Token) := do
  return (← get).tokens.head?

def skip : Read Unit :=
  modify fun r => { r with tokens := r.tokens.drop 1 }

def expect (t : Token) : Read Unit := do
  if (← peek) = some t then skip else failure

/-- Number an anchor. -/
def register (name : List Char) : Read Nat := do
  let r ← get
  let number := (r.anchors.map (·.1)).eraseDups.length
  set { r with anchors := (name, number) :: r.anchors }
  return number

def aliased (name : List Char) : Read Node := do
  match (← get).anchors.lookup name with
  | some number => return .alias number
  | none => failure

def anchorName : Read (Option (List Char)) := do
  match ← peek with
  | some (.anchor name) =>
    skip
    return some name
  | _ => return none

def tag : Read (Option Bytes) := do
  match ← peek with
  | some (.tag handle rest) =>
    skip
    if handle.isEmpty then return some rest
    match (← get).handles.lookup handle with
    | some start => return some (start ++ rest)
    | none => failure
  | _ => return none

/-- An anchor and a tag in either order. -/
def properties : Read (Option (List Char) × Option Bytes) := do
  match ← anchorName with
  | some name => return (some name, ← tag)
  | none =>
    let tag ← tag
    return (← anchorName, tag)

mutual
/-- A node, in a block or between brackets. The value of a key may be a sequence that is not
indented. Every step below a node takes a token, so `fuel` of twice their number is enough. -/
def node (inBlock isValue : Bool) : Nat → Read Node
  | 0 => failure
  | fuel + 1 => do
    if let some (.alias name) ← peek then
      skip
      return ← aliased name
    let (name, tag) ← properties
    let anchor ← name.mapM register
    match ← peek with
    | some .dash =>
      if isValue then return .sequence anchor (← looseItems fuel) else bare anchor tag
    | some (.scalar style text) =>
      skip
      return .scalar anchor tag style text
    | some .openBracket =>
      skip
      return .sequence anchor (← flowItems true fuel)
    | some .openBrace =>
      skip
      return .mapping anchor (← flowEntries true fuel)
    | some .blockSequence =>
      if inBlock then
        skip
        return .sequence anchor (← blockItems fuel)
      else bare anchor tag
    | some .blockMapping =>
      if inBlock then
        skip
        return .mapping anchor (← blockEntries fuel)
      else bare anchor tag
    | _ => bare anchor tag

/-- A node of which there is nothing but an anchor or a tag. -/
def bare (anchor : Option Nat) (tag : Option Bytes) : Read Node :=
  if anchor.isSome || tag.isSome then return .scalar anchor tag .plain "" else failure

/-- A node, or the empty one before some tokens. -/
def nodeUnless (ends : List Token) (inBlock isValue : Bool) : Nat → Read Node
  | 0 => failure
  | fuel + 1 => do
    match ← peek with
    | some t => if ends.contains t then return .empty else node inBlock isValue fuel
    | none => node inBlock isValue fuel

/-- The items of a sequence with a block of its own. -/
def blockItems : Nat → Read (List Node)
  | 0 => failure
  | fuel + 1 => do
    match ← peek with
    | some .dash =>
      skip
      let item ← nodeUnless [.dash, .blockEnd] true false fuel
      return item :: (← blockItems fuel)
    | some .blockEnd =>
      skip
      return []
    | _ => failure

/-- The items of a sequence in the block of the key before it. -/
def looseItems : Nat → Read (List Node)
  | 0 => failure
  | fuel + 1 => do
    match ← peek with
    | some .dash =>
      skip
      let item ← nodeUnless [.dash, .key, .value, .blockEnd] true false fuel
      return item :: (← looseItems fuel)
    | _ => return []

def blockEntries : Nat → Read (List (Node × Node))
  | 0 => failure
  | fuel + 1 => do
    match ← peek with
    | some .key =>
      skip
      let ends := [.key, .value, .blockEnd]
      let k ← nodeUnless ends true true fuel
      let v ←
        if (← peek) = some .value then
          skip
          nodeUnless ends true true fuel
        else pure .empty
      return (k, v) :: (← blockEntries fuel)
    | some .blockEnd =>
      skip
      return []
    | _ => failure

/-- The items up to a closing bracket; all but the first follow a comma. -/
def flowItems (first : Bool) : Nat → Read (List Node)
  | 0 => failure
  | fuel + 1 => do
    if (← peek) = some .closeBracket then
      skip
      return []
    if !first then expect .comma
    match ← peek with
    | some .closeBracket =>
      skip
      return []
    | some .key =>
      skip
      let pair ← flowPair fuel
      return .mapping none [pair] :: (← flowItems false fuel)
    | _ =>
      let item ← node false false fuel
      return item :: (← flowItems false fuel)

/-- A pair that stands between brackets as a mapping of its own. Where its key is empty the token
after the key's mark is passed over. -/
def flowPair : Nat → Read (Node × Node)
  | 0 => failure
  | fuel + 1 => do
    let k ←
      match ← peek with
      | some .value | some .comma | some .closeBracket => do
        skip
        pure .empty
      | _ => node false false fuel
    if (← peek) = some .value then
      skip
      return (k, ← nodeUnless [.comma, .closeBracket] false false fuel)
    else return (k, .empty)

/-- The entries up to a closing brace; all but the first follow a comma. -/
def flowEntries (first : Bool) : Nat → Read (List (Node × Node))
  | 0 => failure
  | fuel + 1 => do
    if (← peek) = some .closeBrace then
      skip
      return []
    if !first then expect .comma
    match ← peek with
    | some .closeBrace =>
      skip
      return []
    | some .key =>
      skip
      let k ← nodeUnless [.value, .comma, .closeBrace] false false fuel
      let v ←
        if (← peek) = some .value then
          skip
          nodeUnless [.comma, .closeBrace] false false fuel
        else pure .empty
      return (k, v) :: (← flowEntries false fuel)
    | _ =>
      let k ← node false false fuel
      return (k, .empty) :: (← flowEntries false fuel)
end

/-- The directives before a document: at most one version, which must be 1.1 or 1.2, and each
handle once. -/
def directives (version : Bool) (given : List (List Char × Bytes)) : Nat → Read Unit
  | 0 => failure
  | fuel + 1 => do
    match ← peek with
    | some (.version major minor) =>
      if version || major ≠ 1 || (minor ≠ 1 && minor ≠ 2) then failure
      skip
      directives true given fuel
    | some (.handle name meaning) =>
      if (given.lookup name).isSome then failure
      skip
      directives version ((name, meaning) :: given) fuel
    | _ => modify fun r => { r with handles := given ++ r.handles }

/-- The only document of a text, if there is one. A first document without directives needs no
mark, and marks of its end may follow it, but nothing else. -/
def document : Read (Option Node) := do
  let fuel := 2 * (← get).tokens.length + 2
  let root ←
    match ← peek with
    | none => return none
    | some (.version _ _) | some (.handle _ _) | some .documentStart => do
      directives false [] fuel
      expect .documentStart
      match ← peek with
      | none | some .documentStart | some .documentEnd | some (.version _ _)
      | some (.handle _ _) => pure .empty
      | some _ => node true false fuel
    | some _ => node true false fuel
  if (← get).tokens.all (· = .documentEnd) then return some root else failure

end Read

/-- The document of a text: nothing when it holds blanks and comments only. -/
def document? (s : String) : Option (Option Node) := do
  let tokens ← tokens? s
  (Read.document.run { tokens }).map (·.1)

end WorkQueue.Yaml
