import WorkQueue.Text.Numeral

/-! # Faults of cron expressions -/

namespace WorkQueue.Cron

/-- Why a text is not a cron expression. -/
inductive Fault where
  /-- Not five, six or seven words. -/
  | fieldCount (words : Nat)
  /-- The words are not the fields of a schedule. -/
  | malformed
  /-- A reason given as text. -/
  | described (reason : String)
  deriving Repr, DecidableEq

def Fault.text : Fault → String
  | .fieldCount n => "expected 5, 6 or 7 fields, got " ++ Numeral.text n
  | .malformed => "the fields do not make a schedule"
  | .described reason => reason

end WorkQueue.Cron
