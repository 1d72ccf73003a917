import Mathlib
import WorkQueue.Proofs.Instant.Elapsed
import WorkQueue.Proofs.Store.Row

/-! # Jobs as rows

A job record whose times fit their columns, and whose window is a number of milliseconds that a
column holds, reads back from its row.
-/

namespace WorkQueue

namespace Duration

/-- The length is a number of whole milliseconds that a word of 64 bits with a sign holds. -/
def WholeMillis (d : Duration) : Prop := d.toNanos % 1000000 = 0 ∧ d.toMillis < 2 ^ 63

instance (d : Duration) : Decidable d.WholeMillis := inferInstanceAs (Decidable (_ ∧ _))

theorem bmod_of_lt {n : Nat} (h : n < 2 ^ 63) : Int.bmod n UInt64.size = n := by
  have hsize : ((UInt64.size : Nat) : Int) = 2 ^ 64 := rfl
  rw [Int.bmod_def, hsize, Int.emod_eq_of_lt (by omega) (by omega), if_pos (by omega)]

theorem bmod_lt (n : Nat) : Int.bmod n UInt64.size < 2 ^ 63 := by
  have hsize : ((UInt64.size : Nat) : Int) = 2 ^ 64 := rfl
  rw [Int.bmod_def, hsize]
  omega

theorem column_lt (d : Duration) : d.column < 2 ^ 63 := bmod_lt _

theorem column_eq {d : Duration} (h : d.WholeMillis) : d.column = d.toMillis := bmod_of_lt h.2

theorem toNanos_ofColumn_column (d : Duration) :
    (ofColumn d.column).toNanos = d.column.toNat * 1000000 := by
  have hlt : d.column.toNat < UInt64.size := by
    have hsize : UInt64.size = 2 ^ 64 := rfl
    have hcolumn := d.column_lt
    omega
  rw [ofColumn, toNanos_ofMillis]
  exact congrArg (· * 1000000) (UInt64.toNat_ofNat_of_lt hlt)

/-- A column keeps a window just if it is a number of milliseconds that the column holds. -/
theorem ofColumn_column_iff {d : Duration} : ofColumn d.column = d ↔ d.WholeMillis := by
  rw [← toNanos_inj, toNanos_ofColumn_column]
  constructor
  · intro h
    have hlt := d.column_lt
    rw [WholeMillis, toMillis]
    omega
  · intro h
    have hwhole := h.1
    rw [column_eq h, Int.toNat_natCast, toMillis]
    omega

theorem ofColumn_column {d : Duration} (h : d.WholeMillis) : ofColumn d.column = d :=
  ofColumn_column_iff.mpr h

end Duration

/-- The record is told by its row. -/
structure JobRecord.Fits (j : JobRecord) : Prop where
  lastFiredSlot : ∀ t ∈ j.lastFiredSlot, t.Exact
  armedAt : j.armedAt.Exact
  window : ∀ d ∈ j.window, d.WholeMillis

namespace JobRow

/-- The cells of the row of a job. -/
def cellsOf (j : JobRecord) : Cells where
  name := j.name
  windowMs := j.window.map Duration.column
  windowPending := j.windowPending
  removed := j.removed

theorem cells_ofRecord (j : JobRecord) : (ofRecord j).cells = .ok (cellsOf j) := by
  simp only [cells, ofRecord, MessageRow.flag?_ite, cellsOf]
  cases j.window <;> rfl

theorem decode_ofRecord {j : JobRecord} (hj : j.Fits) :
    (ofRecord j).decode (cellsOf j) = .ok j := by
  have harmed : Instant.ofColumn j.armedAt.column = .ok j.armedAt := by
    rw [Instant.ofColumn_column hj.armedAt.1, hj.armedAt.2]
  have hwindow : (j.window.map Duration.column).map Duration.ofColumn = j.window := by
    cases h : j.window with
    | none => rfl
    | some d => rw [Option.map_some, Option.map_some, Duration.ofColumn_column (hj.window d h)]
  simp only [decode, ofRecord, cellsOf, MessageRow.ofColumn?_exact hj.lastFiredSlot, harmed,
    hwindow, ok_bind]

end JobRow

end WorkQueue
