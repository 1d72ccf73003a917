import WorkQueue.Uuid

/-! # Owners and leases

A lease token is the text of its owner, a slash and a suffix that was never used before, so
two claims never hold the same token.
-/

namespace WorkQueue

/-- Opaque identifier of a message, assigned when it is stored. -/
structure MessageId where
  uuid : Uuid
  deriving Repr, DecidableEq, Inhabited

namespace MessageId

def text (id : MessageId) : String := id.uuid.text

def ofText? (s : String) : Option MessageId := (Uuid.ofText? s).map (⟨·⟩)

end MessageId

/-- The text that a worker, or one claim of a worker, holds leases with. -/
structure Owner where
  token : String
  deriving Repr, DecidableEq, Inhabited

namespace Owner

/-- An owner named after a fresh identifier. -/
def generate (fresh : Uuid) : Owner :=
  ⟨String.ofList ("worker-".toList ++ fresh.digits)⟩

/-- The token of one claim made by an owner. -/
def lease (o : Owner) (fresh : Uuid) : Owner :=
  ⟨String.ofList (o.token.toList ++ '/' :: fresh.digits)⟩

/-- Whether a token has the form of a lease of this owner. -/
def issued (o token : Owner) : Bool :=
  match Text.stripStart? o.token.toList token.token.toList with
  | some ('/' :: _ :: _) => true
  | _ => false

end Owner

/-- One claim on a message; it is good while the stored token is still `token`. -/
structure Lease where
  id : MessageId
  token : Owner
  deriving Repr, DecidableEq

namespace Lease

def text (l : Lease) : String := l.id.text ++ "@" ++ l.token.token

end Lease

end WorkQueue
