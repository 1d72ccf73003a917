import WorkQueue.Text.Bytes

/-! # Tokens of YAML

What a text is cut into. Blocks are bracketed by tokens of their own, which stand where the
indentation grows and shrinks.
-/

namespace WorkQueue.Yaml

/-- How a scalar is written. -/
inductive Style where
  | plain
  | singleQuoted
  | doubleQuoted
  | literal
  | folded
  deriving Repr, DecidableEq

inductive Token where
  /-- The version that the next document is in. -/
  | version (major minor : Nat)
  /-- What a handle in the tags of the next document stands for. -/
  | handle (name : List Char) (meaning : Bytes)
  | documentStart
  | documentEnd
  | blockSequence
  | blockMapping
  | blockEnd
  | openBracket
  | closeBracket
  | openBrace
  | closeBrace
  | dash
  | comma
  | key
  | value
  | alias (name : List Char)
  | anchor (name : List Char)
  /-- A tag by its handle and the rest; no handle when it is written in full. -/
  | tag (handle : List Char) (rest : Bytes)
  | scalar (style : Style) (text : String)
  deriving Repr, DecidableEq

end WorkQueue.Yaml
