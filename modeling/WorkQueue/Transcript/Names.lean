import WorkQueue.Job.Event
import WorkQueue.Transcript.Failure

/-! # Names in a transcript

Identifiers and lease tokens are random, so a transcript shows them by names that count them in
the order in which they first appear: `m1`, `m2`, … for messages and `owner/#1`, `owner/#2`, …
for tokens. The nil identifier, which no message has, is `ghost`.
-/

namespace WorkQueue

structure Names where
  messages : List MessageId := []
  /-- The shown and the real text of each token. -/
  tokens : List (String × String) := []
  deriving Repr, DecidableEq, Inhabited

namespace Names

/-- The name of a message, which gets the next one if it has none. -/
def message (id : MessageId) : StateM Names String := do
  if id = default then return "ghost"
  let s ← get
  match s.messages.idxOf? id with
  | some i => return "m" ++ Numeral.text (i + 1)
  | none =>
    set { s with messages := s.messages ++ [id] }
    return "m" ++ Numeral.text (s.messages.length + 1)

/-- The message with a name; names that are not given out stand for the nil identifier. -/
def messageOf (s : Names) (name : String) : MessageId :=
  match name.toList with
  | 'm' :: ds => ((Numeral.read? 10 ds).bind fun n => s.messages[n - 1]?).getD default
  | _ => default

/-- The digits that a fresh identifier leaves in a token. -/
def isFreshSuffix (cs : List Char) : Bool :=
  cs.length = 32 && cs.all fun c => Numeral.isDigitIn 16 c && !c.isUpper

/-- An owner without the random part of a generated one. -/
def shownOwner (cs : List Char) : List Char :=
  if cs.take 7 = "worker-".toList && isFreshSuffix (cs.drop 7) then "worker".toList else cs

/-- The owner and the suffix of a token that is a lease. -/
def leaseParts? (cs : List Char) : Option (List Char × List Char) :=
  let suffix := (cs.reverse.takeWhile (· ≠ '/')).reverse
  if isFreshSuffix suffix && suffix.length < cs.length then
    some (cs.take (cs.length - suffix.length - 1), suffix)
  else none

/-- The name of a token, which gets the next number if it is a lease without one. -/
def token (o : Owner) : StateM Names String := do
  match leaseParts? o.token.toList with
  | none => return String.ofList (shownOwner o.token.toList)
  | some (owner, _) =>
    let s ← get
    match s.tokens.find? (·.2 = o.token) with
    | some (shown, _) => return shown
    | none =>
      let shown := String.ofList (shownOwner owner) ++ "/#" ++ Numeral.text (s.tokens.length + 1)
      set { s with tokens := s.tokens ++ [(shown, o.token)] }
      return shown

/-- The token with a name; any other text is a token itself. -/
def tokenOf (s : Names) (shown : String) : Owner :=
  ⟨((s.tokens.find? (·.1 = shown)).map (·.2)).getD shown⟩

def lease (l : Lease) : StateM Names String := do
  return (← message l.id) ++ "@" ++ (← token l.token)

/-- Replace members of an object. -/
def replaced (changes : List (String × Json)) : Json → Json
  | .object members =>
    .object (members.map fun (k, v) =>
      (k, ((changes.find? fun c => some c.1 = k).map (·.2)).getD v))
  | j => j

/-- Leave members of an object out. -/
def without (keys : List String) : Json → Json
  | .object members => .object (members.filter fun m => !keys.any fun k => m.1 = some k)
  | j => j

/-- A message by names, without its stamp. -/
def messageJson (m : Message) : StateM Names Json := do
  let id ← message m.id
  let token ← m.ownerToken.mapM token
  return replaced [("id", .text id), ("owner_token", .ofOption .text token)]
    (without ["enqueued_at"] m.toJson)

/-- An event by names. -/
def eventJson (e : Event) : StateM Names Json := do
  match e with
  | .queued _ _ id => return replaced [("message_id", .text (← message id))] e.toJson
  | .exception job error => return (Event.exception job (clipped error)).toJson
  | .nonFatal job info => return (Event.nonFatal job (clipped info)).toJson

/-- A failure, with the message that it names by its name. -/
def failureJson (subject : Option MessageId) (j : Json) : StateM Names Json := do
  match subject, j.get? "message" with
  | some id, some (.string (some s)) =>
    return replaced [("message", .text (s.replace id.text (← message id)))] j
  | _, _ => return j

end Names

end WorkQueue
