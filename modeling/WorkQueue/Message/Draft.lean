import WorkQueue.Message.Codec

/-! # Drafts

New messages and headers as a producer writes them in JSON, with text or bytes as values.
-/

namespace WorkQueue

open Json

/-- Bytes from a list of numbers, or from a text as UTF-8. -/
def Bytes.ofDraft? : Json → Option Bytes
  | .string s => s.map Bytes.ofText
  | j => Bytes.ofJson? j

/-- Headers from pairs; of a repeated key the later value takes the earlier place. -/
def Headers.ofDraft? : Json → Option Headers
  | .null => some .empty
  | j => (j.items? (pair? text? Bytes.ofDraft?)).map Headers.ofList

namespace NewMessage

/-- Tag a message with the job slot of a draft, or only give it the key. -/
def withJob? (m : NewMessage) : Json → Option NewMessage
  | .null => some m
  | j => do
    let name ← (← j.get? "name").text?
    let slot ← Instant.ofJson? (← j.get? "slot")
    if j.get? "bare" == some (.bool true) then some { m with job := some ⟨name, slot⟩ }
    else some (m.forJob name slot)

def ofDraft? (j : Json) : Option NewMessage := do
  let member (key : String) : Json := (j.get? key).getD .null
  let m : NewMessage := {
    payload := ← Bytes.ofDraft? (member "payload")
    headers := ← Headers.ofDraft? (member "headers")
    route := ← (member "route").optional? text?
    priority := ← (member "priority").optional? Message.priorityOfJson?
    visibleAfter := ← (member "visible_after").optional? Instant.ofJson?
    expiresAt := ← (member "expires_at").optional? Instant.ofJson? }
  m.withJob? (member "job")

end NewMessage

end WorkQueue
