import WorkQueue.Json.Basic
import WorkQueue.Text.Numeral

/-! # Written JSON

The compact form. Only quotes, backslashes and control characters are escaped.
-/

namespace WorkQueue.Json

open Numeral

/-- A character inside a string. -/
def writtenChar (c : Char) : List Char :=
  if c = '"' then ['\\', '"']
  else if c = '\\' then ['\\', '\\']
  else if 32 ≤ c.toNat then [c]
  else if c = '\x08' then ['\\', 'b']
  else if c = '\t' then ['\\', 't']
  else if c = '\n' then ['\\', 'n']
  else if c = '\x0c' then ['\\', 'f']
  else if c = '\r' then ['\\', 'r']
  else '\\' :: 'u' :: fixed 16 4 c.toNat

def writtenText (s : String) : List Char :=
  '"' :: (s.toList.flatMap writtenChar ++ ['"'])

/-- A string or key; one without a text is written as the replacement character. -/
def writtenString (s : Option String) : List Char :=
  writtenText (s.getD "\uFFFD")

mutual
def written : Json → List Char
  | .null => ['n', 'u', 'l', 'l']
  | .bool true => ['t', 'r', 'u', 'e']
  | .bool false => ['f', 'a', 'l', 's', 'e']
  | .integer n => Numeral.integer n
  | .real d => d.written
  | .string s => writtenString s
  | .array items => '[' :: (writtenItems true items ++ [']'])
  | .object members => '{' :: (writtenMembers true members ++ ['}'])

def writtenItems (first : Bool) : List Json → List Char
  | [] => []
  | j :: js => (if first then [] else [',']) ++ written j ++ writtenItems false js

def writtenMembers (first : Bool) : List (Option String × Json) → List Char
  | [] => []
  | (k, j) :: ms =>
    (if first then [] else [',']) ++ writtenString k ++ ':' :: written j
      ++ writtenMembers false ms
end

/-- The compact text of a value. -/
def render (j : Json) : String :=
  String.ofList (written j)

end WorkQueue.Json
