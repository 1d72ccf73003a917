import Mathlib
import WorkQueue.Proofs.Store.Moves
import WorkQueue.Proofs.Store.Outcome

/-! # Calls that fail

Whatever its rows hold, a table that answers a call with an error is left as it was, but for one
case. A claim keeps the lease that it wrote if the leased row does not read back: its caller is told
of an error, and the message is processing under a token that nobody was given.
-/

namespace WorkQueue

namespace Table

/-- The call leases a row that does not read back under its lease, and the table is left so. -/
inductive Strands (t : Table) : Call → Table → Prop where
  | claim {routes : List String} {token : Owner} {now : Instant} {rows : List MessageRow}
      {r : MessageRow} {cells : MessageRow.Cells} {e : StoreError}
      (stored : t.messages = some rows)
      (first : best? (rows.filter (·.isClaimable now.column routes)) = some r)
      (typed : (r.leased token now).cells = .ok cells)
      (illegible : (r.leased token now).decode cells = .error e) :
      t.Strands (.claim routes token now)
        { t with messages := some (update rows (·.id = r.id) (·.leased token now)) }

variable {t t' : Table} {c : Call}

theorem Strands.changes (h : t.Strands c t') : t' ≠ t := by
  cases h with
  | @claim routes token now rows r cells e stored first =>
      intro hsame
      obtain ⟨hr, hwaiting⟩ := best?_claimable first
      have hrows : update rows (·.id = r.id) (·.leased token now) = rows.map id := by
        apply Option.some.inj
        rw [List.map_id, ← stored]
        exact congrArg Table.messages hsame
      have hleased := List.map_inj_left.mp hrows r hr
      simp only [decide_true, ↓reduceIte, id] at hleased
      have hheld : r.status = "processing" := congrArg MessageRow.status hleased.symm
      simp [hwaiting] at hheld

theorem Strands.answer (h : t.Strands c t') : (t.answer c).2 = t' := by
  cases h with
  | @claim routes token now rows r cells e stored first typed illegible =>
      have hclaim : t.answer (.claim routes token now) = (.error e,
          { t with messages := some (update rows (·.id = r.id) (·.leased token now)) }) := by
        have hrows : t.rows = .ok rows := by rw [Table.rows, stored]
        change t.claim routes token now = _
        rw [Table.claim, hrows, ok_bind, first]
        change t.guarded (do
          let cells ← (r.leased token now).cells
          .ok (((r.leased token now).decode cells).map some, _)) = _
        rw [typed, ok_bind, illegible]
        rfl
      rw [hclaim]

/-- A call that fails leaves the messages and the jobs as they were, unless it is a claim of a row
that does not read back. Such a claim has leased the row all the same. -/
theorem failed_unchanged {t : Table} {c : Call} {e : StoreError} (h : (t.answer c).1 = .error e) :
    ((∀ t', ¬ t.Strands c t') → (t.answer c).2 = t) ∧
      ∀ t', t.Strands c t' → (t.answer c).2 = t' ∧ t' ≠ t := by
  constructor
  · intro hnone
    have houtcome := answer_outcome t c
    revert houtcome hnone
    generalize (t.answer c).2 = t'
    generalize (t.answer c).1 = r at h
    intro hnone houtcome
    cases houtcome with
    | kept => rfl
    | repeated => rfl
    | @claimed routes token now rows r cells stored first typed =>
        cases hread : (r.leased token now).decode cells with
        | ok m =>
            rw [hread] at h
            cases h
        | error e => exact absurd (.claim stored first typed hread) (hnone _)
    | _ => cases h
  · intro t' hstrands
    exact ⟨hstrands.answer, hstrands.changes⟩

/-- A lease that another one holds is not settled, and the table stays as it was. -/
theorem failed_unchanged_foreign :
    let t := afterAll answer .empty
      [.insert { payload := [1] } ⟨.ofNat 1⟩ .epoch, .claim [] ⟨"a"⟩ .epoch]
    (t.answer (.complete ⟨.ofNat 1⟩ ⟨"b"⟩)).2 = t := by
  intro t
  obtain ⟨hkept, -⟩ := @failed_unchanged t (.complete ⟨.ofNat 1⟩ ⟨"b"⟩) (.notOwned ⟨.ofNat 1⟩)
    (by decide +kernel)
  apply hkept
  intro t' hstrands
  cases hstrands

/-- A row whose headers were spoiled from outside is leased by a claim that fails. -/
theorem not_forall_failed_unchanged :
    ¬ ∀ (t : Table) (c : Call) (e : StoreError), (t.answer c).1 = .error e →
      (t.answer c).2 = t := by
  intro hall
  let stored := afterAll answer .empty [.insert { payload := [1] } ⟨.ofNat 1⟩ .epoch]
  let t := (stored.editMessage (MessageId.text ⟨.ofNat 1⟩) "headers" (some "oops")).2
  have hsame := hall t (.claim [] ⟨"a"⟩ .epoch) (.unreadable (.headers "oops")) (by decide +kernel)
  revert hsame
  decide +kernel

end Table

end WorkQueue
