import WorkQueue.Number.Decimal

/-! # JSON values

Objects keep their members in order, repeated keys included. A numeral is kept apart by how
it is spelled, because an integer field takes integers only.
-/

namespace WorkQueue

inductive Json where
  | null
  | bool (b : Bool)
  /-- A numeral without fraction and exponent, `-0` excepted. -/
  | integer (n : Int)
  /-- Any other numeral. -/
  | real (d : Decimal)
  /-- A string; it has no text when its escapes spell half of a surrogate pair. -/
  | string (text : Option String)
  | array (items : List Json)
  | object (members : List (Option String × Json))
  deriving Repr, Inhabited, BEq

namespace Json

def text (s : String) : Json := .string (some s)

def nat (n : Nat) : Json := .integer n

/-- An object from keys that are texts. -/
def record (members : List (String × Json)) : Json :=
  .object (members.map fun (k, v) => (some k, v))

def ofOption {α : Type} (f : α → Json) : Option α → Json
  | none => .null
  | some a => f a

/-- An array from a list. -/
def list {α : Type} (f : α → Json) (xs : List α) : Json :=
  .array (xs.map f)

mutual
/-- How deep arrays and objects are nested. -/
def depth : Json → Nat
  | .array items => itemsDepth items + 1
  | .object members => membersDepth members + 1
  | _ => 0

def itemsDepth : List Json → Nat
  | [] => 0
  | j :: js => max (depth j) (itemsDepth js)

def membersDepth : List (Option String × Json) → Nat
  | [] => 0
  | (_, j) :: ms => max (depth j) (membersDepth ms)
end

mutual
/-- Every numeral is finite as a double. -/
def finite : Json → Bool
  | .integer n => (Decimal.ofInt n).isFinite
  | .real d => d.isFinite
  | .array items => finiteItems items
  | .object members => finiteMembers members
  | _ => true

def finiteItems : List Json → Bool
  | [] => true
  | j :: js => finite j && finiteItems js

def finiteMembers : List (Option String × Json) → Bool
  | [] => true
  | (_, j) :: ms => finite j && finiteMembers ms
end

mutual
/-- Every string and key has a text. -/
def spelled : Json → Bool
  | .string s => s.isSome
  | .array items => spelledItems items
  | .object members => spelledMembers members
  | _ => true

def spelledItems : List Json → Bool
  | [] => true
  | j :: js => spelled j && spelledItems js

def spelledMembers : List (Option String × Json) → Bool
  | [] => true
  | (k, j) :: ms => k.isSome && spelled j && spelledMembers ms
end

end Json

end WorkQueue
