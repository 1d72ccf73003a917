import WorkQueue.Config.Basic
import WorkQueue.Yaml.Node

/-! # Configuration in YAML

A document holds a mapping from the names of settings to values. Settings that are missing have
their defaults, and names that no setting has are passed over.
-/

namespace WorkQueue.Config

open Yaml

/-! ## Values -/

/-- The digits of a whole number to a base other than ten, with the base. -/
def based? : List Char → Option (Nat × List Char)
  | '0' :: 'x' :: digits => some (16, digits)
  | '0' :: 'o' :: digits => some (8, digits)
  | '0' :: 'b' :: digits => some (2, digits)
  | _ => none

/-- A whole number that is at most `max`: decimal without leading zeros, or with the mark of its
base, after an optional `+`. -/
def wholeNumber? (max : Nat) (cs : List Char) : Option Nat := do
  let digits := match cs with
    | '+' :: rest => rest
    | _ => cs
  let n ←
    match based? digits with
    | some (base, digits) => Numeral.read? base digits
    | none =>
      if 1 < digits.length && digits.head? = some '0' then none else Numeral.read? 10 digits
  if n ≤ max then some n else none

/-- A number is a plain scalar, or a literal one that is tagged as a whole number. -/
def nodeNumber? (max : Nat) : Node → Option Nat
  | .scalar _ tag style text =>
    if style = .plain
        || (style = .literal && tag = some (Bytes.ofText "tag:yaml.org,2002:int")) then
      wholeNumber? max text.toList
    else none
  | _ => none

def nodeWord64? (node : Node) : Option UInt64 :=
  (nodeNumber? (UInt64.size - 1) node).map .ofNat

def nodeWord32? (node : Node) : Option UInt32 :=
  (nodeNumber? (UInt32.size - 1) node).map .ofNat

/-- Every scalar is a text, however it is written. -/
def nodeText? : Node → Option String
  | .scalar _ _ _ text => some text
  | _ => none

/-- A text or nothing. A plain scalar is nothing when it has no text or spells null; one that is
tagged is nothing only when tagged as null, and must spell null then. -/
def nodeTextOrNull? : Node → Option (Option String)
  | .scalar _ tag style text =>
    let isNull := ["null", "Null", "NULL", "~"].contains text
    if style ≠ .plain then some (some text)
    else
      match tag with
      | none => some (if text.isEmpty || isNull then none else some text)
      | some t =>
        if t ≠ Bytes.ofText "tag:yaml.org,2002:null" then some (some text)
        else if isNull then some none
        else none
  | _ => none

/-- A plain scalar without text stands for a sequence or a mapping without any members. -/
def isVoid : Node → Bool
  | .scalar _ _ .plain "" => true
  | _ => false

def nodeTexts? (document : Node) (node : Node) : Option (List String) :=
  match node with
  | .sequence _ items => items.mapM fun item => nodeText? (document.target item)
  | node => if isVoid node then some [] else none

/-! ## Documents -/

/-- A setting, or its default when no member has its name; no two may. -/
def member? {α : Type} (f : Node → Option α) (default : α) (name : String)
    (members : List (String × Node)) : Option α :=
  match members.filter (·.1 = name) with
  | [] => some default
  | [(_, node)] => f node
  | _ => none

/-- Settings from the members of a mapping, aliases resolved. -/
def ofMembers? (document : Node) (members : List (String × Node)) : Option Config := do
  let d : Config := {}
  some {
    workerCount := ← member? nodeWord64? d.workerCount "workerCount" members
    routes := ← member? (nodeTexts? document) d.routes "routes" members
    pollInterval := ← member? nodeWord64? d.pollInterval "pollIntervalMs" members
    maxPollInterval := ← member? nodeWord64? d.maxPollInterval "maxPollIntervalMs" members
    heartbeatInterval := ← member? nodeWord64? d.heartbeatInterval "heartbeatIntervalMs" members
    heartbeatTimeout := ← member? nodeWord64? d.heartbeatTimeout "heartbeatTimeoutMs" members
    recoveryScanInterval :=
      ← member? nodeWord64? d.recoveryScanInterval "recoveryScanIntervalMs" members
    maxRetries := ← member? nodeWord32? d.maxRetries "maxRetries" members
    expiredPurgeInterval :=
      ← member? nodeWord64? d.expiredPurgeInterval "expiredPurgeIntervalMs" members
    schedulerTick := ← member? nodeWord64? d.schedulerTick "schedulerTickMs" members
    eventBufferSize := ← member? nodeWord64? d.eventBufferSize "eventBufferSize" members
    dbPath := ← member? nodeText? d.dbPath "dbPath" members
    logLevel := ← member? nodeText? d.logLevel "logLevel" members
    logDir := ← member? nodeTextOrNull? d.logDir "logDir" members }

/-- Settings from a text. Every name must be a scalar, also one that is passed over. -/
def ofYaml? (text : String) : Option Config := do
  match ← document? text with
  | none => some {}
  | some document =>
    match document with
    | .mapping _ entries => do
      let members ← entries.mapM fun (name, value) => do
        some (← nodeText? (document.target name), document.target value)
      ofMembers? document members
    | root => if isVoid root then some {} else none

/-! ## Files -/

/-- Why settings were not loaded. -/
inductive LoadFault where
  /-- The file is missing, or it holds no text. -/
  | file (path : String)
  | content
  deriving Repr, DecidableEq

def LoadFault.text : LoadFault → String
  | .file path => "Failed to read config file " ++ path
  | .content => "Failed to parse queue config YAML"

def parse (text : String) : Except LoadFault Config :=
  match ofYaml? text with
  | some c => .ok c
  | none => .error .content

/-- Settings from the bytes of the file at a path; nothing when it is missing. -/
def load (path : String) (bytes : Option Bytes) : Except LoadFault Config :=
  match bytes.bind Bytes.text? with
  | some text => parse text
  | none => .error (.file path)

end WorkQueue.Config
