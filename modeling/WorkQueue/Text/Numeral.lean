/-! # Numerals

Decimal and hexadecimal digits: reading, plain writing and writing in a fixed width.
-/

namespace WorkQueue.Numeral

/-- The character of a digit below sixteen, letters in lower case. -/
def digitChar (d : Nat) : Char :=
  if d < 10 then Char.ofNat (48 + d) else Char.ofNat (87 + d)

/-- The value of a decimal or hexadecimal digit in either letter case. -/
def digitValue? (c : Char) : Option Nat :=
  let n := c.toNat
  if 48 ≤ n ∧ n ≤ 57 then some (n - 48)
  else if 97 ≤ n ∧ n ≤ 102 then some (n - 87)
  else if 65 ≤ n ∧ n ≤ 70 then some (n - 55)
  else none

/-- The characters `0` to `9`. -/
def isDecimal (c : Char) : Bool :=
  48 ≤ c.toNat && c.toNat ≤ 57

/-- A digit of numerals to `base`, for bases up to sixteen. -/
def isDigitIn (base : Nat) (c : Char) : Bool :=
  match digitValue? c with
  | some d => d < base
  | none => false

/-- The value of a row of digits, the most significant first. -/
def value (base : Nat) (ds : List Char) : Nat :=
  ds.foldl (fun n c => base * n + (digitValue? c).getD 0) 0

/-- Read a whole text as a numeral: at least one digit and nothing else. -/
def read? (base : Nat) (cs : List Char) : Option Nat :=
  if cs.isEmpty then none
  else if cs.all (isDigitIn base) then some (value base cs)
  else none

/-- Read a decimal numeral, with an optional `+`, that is at most `max`. -/
def readUpTo? (max : Nat) (cs : List Char) : Option Nat :=
  let digits := match cs with
    | '+' :: rest => rest
    | _ => cs
  match read? 10 digits with
  | some n => if n ≤ max then some n else none
  | none => none

/-- The last `width` digits of `n`, the most significant first. -/
def fixed (base : Nat) : (width n : Nat) → List Char
  | 0, _ => []
  | width + 1, n => fixed base width (n / base) ++ [digitChar (n % base)]

/-- The decimal digits of `n`, without leading zeros. -/
def natural (n : Nat) : List Char :=
  if n < 10 then [digitChar n]
  else natural (n / 10) ++ [digitChar (n % 10)]
decreasing_by omega

/-- The decimal text of a whole number. -/
def integer : Int → List Char
  | .ofNat n => natural n
  | .negSucc n => '-' :: natural (n + 1)

/-- The decimal digits of `n`, with zeros in front up to `width` digits. -/
def atLeast (width n : Nat) : List Char :=
  let ds := natural n
  List.replicate (width - ds.length) '0' ++ ds

/-- The decimal text of `n`. -/
def text (n : Nat) : String :=
  String.ofList (natural n)

/-! ## Reading what was written -/

theorem digitValue?_digitChar {d : Nat} (h : d < 16) : digitValue? (digitChar d) = some d := by
  have all : ∀ d < 16, digitValue? (digitChar d) = some d := by decide
  exact all d h

theorem isDigitIn_digitChar {base d : Nat} (hb : base ≤ 16) (h : d < base) :
    isDigitIn base (digitChar d) = true := by
  simp [isDigitIn, digitValue?_digitChar (Nat.lt_of_lt_of_le h hb), h]

theorem value_append_digitChar {base d : Nat} (h : d < 16) (ds : List Char) :
    value base (ds ++ [digitChar d]) = base * value base ds + d := by
  simp [value, digitValue?_digitChar h]

theorem value_natural (n : Nat) : value 10 (natural n) = n := by
  fun_induction natural n with
  | case1 n h => simp [value, digitValue?_digitChar (Nat.lt_trans h (by decide))]
  | case2 n h ih =>
    rw [value_append_digitChar (Nat.lt_trans (Nat.mod_lt n (by decide)) (by decide)), ih]
    omega

theorem all_natural (n : Nat) : (natural n).all (isDigitIn 10) = true := by
  fun_induction natural n with
  | case1 n h => simp [isDigitIn_digitChar (by decide) h]
  | case2 n h ih =>
    simp only [List.all_append, ih, List.all_cons, List.all_nil, Bool.and_true, Bool.true_and]
    exact isDigitIn_digitChar (by decide) (Nat.mod_lt n (by decide))

theorem natural_ne_nil (n : Nat) : natural n ≠ [] := by
  unfold natural
  split <;> simp

theorem read?_natural (n : Nat) : read? 10 (natural n) = some n := by
  simp [read?, natural_ne_nil, all_natural, value_natural]

end WorkQueue.Numeral
