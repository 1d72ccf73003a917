/-! # Blank characters

The Unicode property White_Space, and the ways in which text is cut at it.
-/

namespace WorkQueue.Text

/-- The characters with the property White_Space. -/
def isBlank (c : Char) : Bool :=
  let n := c.toNat
  (0x09 ≤ n && n ≤ 0x0D) || n == 0x20 || n == 0x85 || n == 0xA0 || n == 0x1680
    || (0x2000 ≤ n && n ≤ 0x200A) || n == 0x2028 || n == 0x2029 || n == 0x202F
    || n == 0x205F || n == 0x3000

/-- Drop the blanks in front. -/
def skipBlanks (cs : List Char) : List Char :=
  cs.dropWhile isBlank

/-- Drop the blanks at both ends. -/
def trim (cs : List Char) : List Char :=
  (skipBlanks (skipBlanks cs).reverse).reverse

/-- The maximal runs of characters that do not satisfy `sep`. -/
def words (sep : Char → Bool) : List Char → List (List Char)
  | [] => []
  | c :: cs =>
    if sep c then words sep cs
    else
      match cs, words sep cs with
      | d :: _, w :: ws => if sep d then [c] :: w :: ws else (c :: w) :: ws
      | _, ws => [c] :: ws

/-- The pieces between the occurrences of `sep`; there is always at least one. -/
def pieces (sep : Char) : List Char → List (List Char)
  | [] => [[]]
  | c :: cs =>
    if c = sep then [] :: pieces sep cs
    else
      match pieces sep cs with
      | w :: ws => (c :: w) :: ws
      | [] => [[c]]

theorem pieces_ne_nil (sep : Char) (cs : List Char) : pieces sep cs ≠ [] := by
  cases cs with
  | nil => simp [pieces]
  | cons c cs =>
    by_cases h : c = sep
    · simp [pieces, h]
    · simp only [pieces, h, if_false]
      split <;> simp

theorem intercalate_pieces (sep : Char) (cs : List Char) :
    [sep].intercalate (pieces sep cs) = cs := by
  induction cs with
  | nil => rfl
  | cons c cs ih =>
    obtain ⟨w, ws, hw⟩ := List.exists_cons_of_ne_nil (pieces_ne_nil sep cs)
    rw [hw] at ih
    by_cases h : c = sep
    · cases ws <;> simp_all [pieces, List.intercalate, List.intersperse]
    · cases ws <;> simp_all [pieces, List.intercalate, List.intersperse]

/-- What stands after `start`, if the text begins with it. -/
def stripStart? : (start text : List Char) → Option (List Char)
  | [], cs => some cs
  | _ :: _, [] => none
  | p :: ps, c :: cs => if p = c then stripStart? ps cs else none

end WorkQueue.Text
