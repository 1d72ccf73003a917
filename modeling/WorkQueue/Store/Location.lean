import WorkQueue.Error

/-! # Where tables are kept

A path below an empty directory names a file that can be made there when it has one part left
after its dots are resolved, and when no name and no path on the way is too long.
-/

namespace WorkQueue.Location

/-- The most bytes of a path. -/
def maxPath : Nat := 511

/-- The most bytes of a name in a directory. -/
def maxName : Nat := 255

/-- What is put after the name of the tables to name their journal. -/
def journal : String := "-journal"

def bytes (part : List Char) : Nat :=
  (String.ofList part).utf8ByteSize

/-- Go on by one part below a directory whose own name has `base` bytes. A name is looked up, and so
may be too long, only where the directory is there. A step up from the top stays there. -/
def step? (base : Nat) (parts : List (List Char)) (part : List Char) : Option (List (List Char)) :=
  if part.isEmpty || part = ['.'] then some parts
  else if part = ['.', '.'] then some parts.dropLast
  else
    let next := parts ++ [part]
    if maxPath < next.foldl (fun n p => n + 1 + bytes p) base then none
    else if parts.isEmpty && maxName < bytes part then none
    else some next

/-- The parts of a path, dots resolved by their text. -/
def resolve? (base : Nat) (path : String) : Option (List (List Char)) :=
  if path.toList.contains '\x00' then none
  else (Text.pieces '/' path.toList).foldlM (step? base) []

/-- Open tables at a path below an empty directory whose own name has `base` bytes. -/
def openAt (base : Nat) (path : String) : Except StoreError Unit :=
  match resolve? base path with
  | some [name] =>
    if bytes name + journal.utf8ByteSize ≤ maxName then .ok ()
    else .error (.unavailable (.table "unable to open database file"))
  | _ => .error (.unavailable (.table "unable to open database file"))

end WorkQueue.Location
