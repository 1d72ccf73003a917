/-! # Bytes and text

Payloads and header values are bytes; text enters and leaves them as UTF-8. Where every payload
must be shown, what is no text in it is shown as replacement characters.
-/

namespace WorkQueue

/-- A sequence of bytes. -/
abbrev Bytes := List UInt8

namespace Bytes

/-- The UTF-8 bytes of a text. -/
def ofText (s : String) : Bytes :=
  s.toUTF8.data.toList

/-- The text that the bytes spell in UTF-8, if they spell one. -/
def text? (b : Bytes) : Option String :=
  String.fromUTF8? ⟨b.toArray⟩

/-- The ranges of the bytes that follow the first byte of a character in UTF-8. -/
def following? (first : Nat) : Option (List (Nat × Nat)) :=
  let any := (0x80, 0xBF)
  if first < 0x80 then some []
  else if first < 0xC2 then none
  else if first < 0xE0 then some [any]
  else if first = 0xE0 then some [(0xA0, 0xBF), any]
  else if first = 0xED then some [(0x80, 0x9F), any]
  else if first < 0xF0 then some [any, any]
  else if first = 0xF0 then some [(0x90, 0xBF), any, any]
  else if first < 0xF4 then some [any, any, any]
  else if first = 0xF4 then some [(0x80, 0x8F), any, any]
  else none

/-- The bytes in front that lie in the ranges, one in each, and the rest. -/
def inRanges : List (Nat × Nat) → Bytes → Bytes × Bytes
  | (low, high) :: ranges, b :: bs =>
    if low ≤ b.toNat ∧ b.toNat ≤ high then
      let (taken, rest) := inRanges ranges bs
      (b :: taken, rest)
    else ([], b :: bs)
  | _, bs => ([], bs)

/-- The characters of the bytes, in at most `fuel` steps. The longest start of a character that is
not completed, or else a single byte, stands for one replacement character. -/
def shownChars : (fuel : Nat) → Bytes → List Char
  | 0, _ => []
  | _, [] => []
  | fuel + 1, b :: bs =>
    match following? b.toNat with
    | none => '\uFFFD' :: shownChars fuel bs
    | some ranges =>
      let (taken, rest) := inRanges ranges bs
      let c :=
        if taken.length < ranges.length then '\uFFFD'
        else
          -- the first byte of a character of `k` bytes more has `6 - k` bits of its code
          let head := if ranges.isEmpty then b.toNat else b.toNat % Nat.pow 2 (6 - ranges.length)
          Char.ofNat (taken.foldl (fun n t => 64 * n + t.toNat % 64) head)
      c :: shownChars fuel rest

/-- The bytes as text, replacement characters standing for what spells none. -/
def shown (b : Bytes) : String :=
  String.ofList (shownChars b.length b)

end Bytes

namespace Text

/-- A text without its first `n` bytes, if they are whole characters. -/
def dropBytes? : (n : Nat) → List Char → Option (List Char)
  | 0, cs => some cs
  | _, [] => none
  | n, c :: cs => if c.utf8Size ≤ n then dropBytes? (n - c.utf8Size) cs else none

/-- The first `n` bytes of a text, if they are whole characters. -/
def takeBytes? : (n : Nat) → List Char → Option (List Char)
  | 0, _ => some []
  | _, [] => none
  | n, c :: cs =>
    if c.utf8Size ≤ n then (takeBytes? (n - c.utf8Size) cs).map (c :: ·) else none

/-- The bytes of a text from the `a`-th to before the `b`-th, if they are whole characters. -/
def slice? (a b : Nat) (cs : List Char) : Option (List Char) := do
  takeBytes? (b - a) (← dropBytes? a cs)

end Text

end WorkQueue
