import WorkQueue.Json.Writer
import WorkQueue.Log.Filter

/-! # The logger

Events go to the console as lines and, where there is a directory for them, to a daily file as
JSON objects. A directory that cannot be made costs the file and is warned of.
-/

namespace WorkQueue.Log

/-- An event with its fields in order, values as JSON. -/
structure Record where
  level : Level
  target : String
  message : String
  fields : List (String × Json) := []
  /-- The names of fields whose values depend on the machine and are left out. -/
  localFields : List String := []

namespace Record

def origin (r : Record) : Origin where
  level := r.level
  target := r.target
  fields := "message" :: r.fields.map (·.1) ++ r.localFields

/-- The line of an event without its time. -/
def line (r : Record) : String :=
  r.level.text ++ " " ++ r.target ++ ": " ++ r.message
    ++ String.join (r.fields.map fun (k, v) => " " ++ k ++ "=" ++ v.render)

/-- The object of an event without its time. -/
def toJson (r : Record) : Json :=
  .record ([("level", .text r.level.text), ("message", .text r.message)] ++ r.fields
    ++ [("target", .text r.target)])

end Record

/-- What is found where log files should go. -/
inductive Directory where
  | none
  /-- It is there, or it can be made. -/
  | usable
  | unusable
  deriving Repr, DecidableEq

structure Logger where
  filter : Filter
  directory : Directory
  console : List Record := []

namespace Logger

/-- The first part of the names of log files; the date follows. -/
def fileName : String := "queueforge.log"

def warning : Record where
  level := .warn
  target := "queueforge_logging::logger"
  message := "Log directory unavailable; logging to console only"
  localFields := ["dir", "error"]

/-- Log an event, if the filter lets it through. -/
def log (l : Logger) (r : Record) : Logger :=
  if l.filter.admits r.origin then { l with console := l.console ++ [r] } else l

/-- The first logger of a process; a second one is not installed. -/
def install (override : Option String) (level : String) (directory : Directory) : Logger :=
  let l : Logger := { filter := .ofSettings override level, directory }
  match directory with
  | .unusable => l.log warning
  | _ => l

/-- The lines of the file, where there is one. -/
def file? (l : Logger) : Option (List Record) :=
  match l.directory with
  | .usable => some l.console
  | _ => .none

end Logger

end WorkQueue.Log
