import WorkQueue.Json.Basic

/-! # Typed reading of JSON values

A record with named fields is read from an object, or from an array of its fields in order.
Unknown keys are passed over, and a known key may stand only once.
-/

namespace WorkQueue.Json

def text? : Json → Option String
  | .string s => s
  | _ => none

def bool? : Json → Option Bool
  | .bool b => some b
  | _ => none

/-- An integer from `least` to `most`. -/
def intWithin? (least most : Int) : Json → Option Int
  | .integer n => if least ≤ n ∧ n ≤ most then some n else none
  | _ => none

/-- A natural number up to `most`. -/
def natUpTo? (most : Nat) (j : Json) : Option Nat :=
  (j.intWithin? 0 most).map Int.toNat

/-- Read `null` as none. -/
def optional? {α : Type} (f : Json → Option α) : Json → Option (Option α)
  | .null => some none
  | j => (f j).map some

/-- Read an array item by item. -/
def items? {α : Type} (f : Json → Option α) : Json → Option (List α)
  | .array items => items.mapM f
  | _ => none

/-- An array of two items. -/
def pair? {α β : Type} (f : Json → Option α) (g : Json → Option β) : Json → Option (α × β)
  | .array [a, b] => do some (← f a, ← g b)
  | _ => none

/-- The only value of a key: none inside when it is absent, none when it is repeated. -/
def single? (members : List (Option String × Json)) (key : String) : Option (Option Json) :=
  match members.filter (fun m => m.1 = some key) with
  | [] => some none
  | [m] => some (some m.2)
  | _ => none

/-- The values of the fields named, in their order. -/
def fields? (names : List String) : Json → Option (List (Option Json))
  | .object members =>
    if members.all (fun m => m.1.isSome) then names.mapM (single? members) else none
  | .array items => if items.length = names.length then some (items.map some) else none
  | _ => none

/-- A field that must be there. -/
def required? {α : Type} (f : Json → Option α) : Option Json → Option α
  | some j => f j
  | none => none

/-- A field that may be missing or null. -/
def nullable? {α : Type} (f : Json → Option α) : Option Json → Option (Option α)
  | some j => optional? f j
  | none => some none

/-- The value of a key, the last one if it is repeated. -/
def get? (key : String) : Json → Option Json
  | .object members => (members.reverse.find? (fun m => m.1 = some key)).map (·.2)
  | _ => none

end WorkQueue.Json
