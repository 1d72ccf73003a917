/-! # Message status

The lifecycle of a message: waiting, then processing, then complete or error. A processing
message goes back to waiting when its lease is reset, and an errored one when it is requeued.
-/

namespace WorkQueue

inductive Status where
  | waiting
  | processing
  | complete
  | error
  deriving Repr, DecidableEq, BEq

namespace Status

def all : List Status := [.waiting, .processing, .complete, .error]

def text : Status → String
  | .waiting => "waiting"
  | .processing => "processing"
  | .complete => "complete"
  | .error => "error"

def ofText? (s : String) : Option Status :=
  all.find? (·.text = s)

/-- The legal moves. That an errored message is requeued only once is kept on the message. -/
def canMoveTo : Status → Status → Bool
  | .waiting, .processing => true
  | .processing, .complete => true
  | .processing, .error => true
  | .processing, .waiting => true
  | .error, .waiting => true
  | _, _ => false

def isTerminal (s : Status) : Bool :=
  s == .complete

/-- The states that one move leads to. -/
def next (s : Status) : List Status :=
  all.filter s.canMoveTo

end Status

end WorkQueue
