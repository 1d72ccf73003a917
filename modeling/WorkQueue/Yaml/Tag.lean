import WorkQueue.Text.Numeral
import WorkQueue.Yaml.Place
import WorkQueue.Yaml.Token

/-! # Tags, anchors and directives of YAML -/

namespace WorkQueue.Yaml

/-- The characters of tags; within angle brackets and directives a few more. -/
def isTagChar (enclosed : Bool) (c : Char) : Bool :=
  isWord c || ";/?:@&=+$.%!~*'()".toList.contains c || (enclosed && ",[]".toList.contains c)

/-- The number of bytes that follow the first byte of a character in UTF-8. -/
def followers? (first : Nat) : Option Nat :=
  if first < 0x80 then some 0
  else if first < 0xC0 then none
  else if first < 0xE0 then some 1
  else if first < 0xF0 then some 2
  else if first < 0xF8 then some 3
  else none

/-- The bytes of a tag. A byte may be given by two digits after `%`; all bytes of a character
are when the first one is, and `pending` of them are still to come. -/
def tagBytes? (enclosed : Bool) (pending : Nat) : List Place → Option (Bytes × List Place)
  | [] => if pending = 0 then some ([], []) else none
  | p :: ps =>
    if !isTagChar enclosed p.char then if pending = 0 then some ([], p :: ps) else none
    else if p.char = '%' then
      match ps with
      | a :: b :: rest => do
        let n ← Numeral.read? 16 [a.char, b.char]
        let pending ←
          if pending = 0 then followers? n
          else if 0x80 ≤ n && n < 0xC0 then some (pending - 1)
          else none
        (tagBytes? enclosed pending rest).map fun (bs, rest) => (.ofNat n :: bs, rest)
      | _ => none
    else if pending = 0 then
      (tagBytes? enclosed 0 ps).map fun (bs, rest) => (.ofNat p.char.toNat :: bs, rest)
    else none

/-- The bytes of a tag count up to the first that is zero. -/
def untilZero (bs : Bytes) : Bytes :=
  bs.takeWhile (· ≠ 0)

/-- The exclamation mark that begins a handle, a word, and a second mark if there is one. -/
def handle? (ps : List Place) : Option (List Char × List Place) :=
  if !next (· = '!') ps then none
  else
    let (name, rest) := span isWord (ps.drop 1)
    if next (· = '!') rest then some ('!' :: name ++ ['!'], rest.drop 1)
    else some ('!' :: name, rest)

/-- A tag. A text without a second mark is no handle but a part of the tag under the handle `!`;
a mark that stands alone is a tag in full. -/
def tag? (inFlow : Bool) (ps : List Place) : Option (Token × List Place) := do
  let (token, rest) ←
    if next (· = '<') (ps.drop 1) then do
      let (bs, rest) ← tagBytes? true 0 (ps.drop 2)
      if bs.isEmpty || !next (· = '>') rest then none
      some (Token.tag [] (untilZero bs), rest.drop 1)
    else do
      let (handle, rest) ← handle? ps
      let (bs, rest) ← tagBytes? false 0 rest
      if 1 < handle.length && handle.getLast? = some '!' then
        if bs.isEmpty then none
        some (.tag handle (untilZero bs), rest)
      else
        let bs := untilZero ((handle.drop 1).map (fun c => UInt8.ofNat c.toNat) ++ bs)
        some (if bs.isEmpty then .tag [] (Bytes.ofText "!") else .tag ['!'] bs, rest)
  if endsWord rest || (inFlow && next (· = ',') rest) then some (token, rest) else none

/-- The name of an anchor or an alias after its mark. -/
def anchorName? (ps : List Place) : Option (List Char × List Place) :=
  let (name, rest) := span isWord ps
  if name.isEmpty then none
  else if endsWord rest || next ("?:,]\x7d%@\x60".toList.contains ·) rest then some (name, rest)
  else none

/-- A number of at most nine digits. -/
def versionPart? (ps : List Place) : Option (Nat × List Place) :=
  let (digits, rest) := span Numeral.isDecimal ps
  if digits.isEmpty || 9 < digits.length then none
  else some (Numeral.value 10 digits, rest)

/-- A directive after its mark, with the line it stands on. -/
def directive? (ps : List Place) : Option (Token × List Place) := do
  let (name, rest) := span isWord ps
  if name.isEmpty || !endsWord rest then none
  let start := (span isGap rest).2
  let (token, rest) ←
    if name = "YAML".toList then do
      let (major, rest) ← versionPart? start
      if !next (· = '.') rest then none
      let (minor, rest) ← versionPart? (rest.drop 1)
      some (Token.version major minor, rest)
    else if name = "TAG".toList then do
      let (handle, rest) ← handle? start
      if !(handle = ['!'] || (1 < handle.length && handle.getLast? = some '!')) then none
      if !next isGap rest then none
      let (bs, rest) ← tagBytes? true 0 (span isGap rest).2
      if bs.isEmpty || !endsWord rest then none
      some (.handle handle (untilZero bs), rest)
    else none
  some (token, ← nextLine? rest)

end WorkQueue.Yaml
