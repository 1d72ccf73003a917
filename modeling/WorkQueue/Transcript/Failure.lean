import WorkQueue.Error
import WorkQueue.Json.Basic

/-! # Failures in a transcript

An error is shown by its kind and its text. Texts that depend on where the tables are kept are
cut, and so are the reasons why a text does not read.
-/

namespace WorkQueue

/-- An object with the kind of an error and its text. -/
def Json.failure (kind : String) (text : Option String) : Json :=
  .record (("error", .text kind) :: (text.map fun t => ("message", Json.text t)).toList)

/-- A text up to the name of the tables' engine. -/
def clipped (s : String) : String :=
  match s.splitOn "sqlite:" with
  | first :: _ :: _ => first ++ "sqlite:"
  | _ => s

namespace StoreError

def kind : StoreError → String
  | .duplicateKey _ => "DuplicateKey"
  | .notOwned _ => "NotOwned"
  | .notFound _ => "NotFound"
  | .unavailable _ => "Unavailable"
  | .unreadable _ => "Serialization"

/-- The part of the text that is shown. -/
def shown? : StoreError → Option String
  | .unreadable (.id _) | .unreadable (.headers _) | .unreadable (.described _) => none
  | e => some (clipped e.text)

def toJson (e : StoreError) : Json := .failure e.kind e.shown?

/-- The message that an error names. -/
def subject? : StoreError → Option MessageId
  | .notOwned id | .notFound id => some id
  | _ => none

end StoreError

namespace QueueError

def toJson : QueueError → Json
  | .invalidCron e .malformed => .failure "InvalidCron" ("invalid cron expression '" ++ e ++ "'")
  | e@(.invalidCron _ _) => .failure "InvalidCron" e.text
  | e@(.config _) => .failure "ConfigError" e.text
  | e@(.notOwned _) => .failure "NotOwnedByWorker" e.text
  | .store e => .failure ("Gateway/" ++ e.kind) e.shown?
  | .overflow => .failure "panic" none
  | e => .failure "Other" e.text

def subject? : QueueError → Option MessageId
  | .notOwned id => some id
  | .store e => e.subject?
  | _ => none

end QueueError

end WorkQueue
