import Mathlib
import WorkQueue.Config.Basic
import WorkQueue.Proofs.Calendar
import WorkQueue.Proofs.Instant.Column
import WorkQueue.Proofs.Instant.Elapsed
import WorkQueue.Proofs.Lease.Redelivery

/-! # Which settings overflow

Two steps reckon with the settings of a process and are not checked. Accepting the settings doubles
the heartbeat interval, and a recovery pass moves back from the present by the heartbeat timeout.
The first fails for half the words, the second where the timeout reaches over the first instant that
can be told. The retries that a pass counts are never in the way, for no message is handed out that
often.
-/

namespace WorkQueue

namespace Span

theorem ofDuration?_ofMillis_eq_none_iff {ms : UInt64} :
    ofDuration? (.ofMillis ms) = none ↔ 2 ^ 63 ≤ ms.toNat := by
  simp only [ofDuration?, ofNanos?, Duration.toNanos_ofMillis, dite_eq_right_iff, reduceCtorEq,
    imp_false, maxSpanNanos]
  omega

end Span

namespace Instant

/-- The year 0 starts with the second -62167219200. -/
theorem year_nonneg_iff_seconds {t : Instant} : 0 ≤ t.date.year ↔ -62167219200 ≤ t.seconds := by
  have hstart : Date.yearStart 0 = -719528 := by decide
  rw [date, Date.year_nonneg_iff, hstart, day]
  omega

end Instant

namespace Config

variable {c : Config} {now : Instant}

/-- The heartbeat timeout reaches from the instant to before the first one. A timeout that is no span
does not count, because it is refused before it is used. -/
def Overreaches (c : Config) (now : Instant) : Prop :=
  c.heartbeatTimeout.toNat < 2 ^ 63 ∧
    now.position [] - c.heartbeatTimeout.toNat * 1000000 < Instant.first

theorem validate_overflow_iff : c.validate = .error .overflow ↔
    c.workerCount ≠ 0 ∧ c.maxRetries ≠ 0 ∧ c.heartbeatInterval < c.heartbeatTimeout ∧
      2 ^ 63 ≤ c.heartbeatInterval.toNat := by
  have hsize : UInt64.size = 2 * 2 ^ 63 := by decide
  have hdouble : UInt64.size ≤ c.heartbeatInterval.toNat * 2 ↔
      2 ^ 63 ≤ c.heartbeatInterval.toNat := by omega
  rw [← UInt64.not_le, ← hdouble, validate]
  split_ifs <;> simp_all

theorem never_overreaches_iff : (∀ now : Instant, now.FourDigitYear → ¬ c.Overreaches now) ↔
    c.heartbeatTimeout.toNat ≤ 8272434009600000 ∨ 2 ^ 63 ≤ c.heartbeatTimeout.toNat := by
  constructor
  · intro hnever
    have hearliest := hnever ⟨-62167219200, 0, by decide⟩ (by decide +kernel)
    simp only [Overreaches, Instant.position_nil, Instant.first] at hearliest
    omega
  · rintro hbound now ⟨hyear, -⟩ ⟨hspan, hover⟩
    rw [Instant.year_nonneg_iff_seconds] at hyear
    rw [Instant.position_nil, Instant.first] at hover
    omega

end Config

/-! ## A pass -/

namespace Monitor

variable {S σ : Type} {answer : σ → (c : Call) → c.Reply × σ}

/-- With room for one more retry in every message, a pass ends in a report or with an error of the
store, whatever the store does under it. -/
theorem recoverEach_room {maxRetries : UInt32} {todo : List Message}
    (hroom : ∀ m ∈ todo, m.retriesFull = false) (report : RecoveryReport) (store : σ)
    (registry : S) :
    ((recoverEach maxRetries todo report).run answer store registry).1 ≠ .error .overflow := by
  induction todo generalizing report store registry with
  | nil => rintro ⟨⟩
  | cons m rest ih =>
      have hrest := ih fun a ha => hroom a (List.mem_cons_of_mem m ha)
      rw [recoverEach, if_neg (by simp [hroom m List.mem_cons_self])]
      split <;> rw [Procedure.run_bind] <;> split
      · rintro ⟨⟩
      · exact hrest _ _ _
      · exact hrest _ _ _
      · rintro ⟨⟩
      · exact hrest _ _ _
      · exact hrest _ _ _

end Monitor

namespace Config

variable {c : Config} {now : Instant} {S σ : Type} {answer : σ → (c : Call) → c.Reply × σ}

theorem recover_of_overreaches (h : c.Overreaches now) (store : σ) (registry : S) :
    ((Monitor.recover c.monitor now).run answer store registry).1 = .error .overflow := by
  obtain ⟨hspan, hover⟩ := h
  have hthreshold : Span.ofDuration? c.monitor.threshold ≠ none := fun hnone =>
    absurd (Span.ofDuration?_ofMillis_eq_none_iff.mp hnone) (by omega)
  obtain ⟨threshold, hthreshold⟩ := Option.ne_none_iff_exists'.mp hthreshold
  have hnanos := Instant.ofDuration?_nanos hthreshold
  rw [monitor, Duration.toNanos_ofMillis] at hnanos
  have hback : now.shift? (-threshold) = none :=
    (Instant.shift?_back_eq_none_iff (by omega)).mpr (by omega)
  rw [Monitor.recover, hthreshold]
  simp only [hback]
  rfl

theorem recover_overflow {store : σ} {registry : S}
    (h : ((Monitor.recover c.monitor now).run answer store registry).1 = .error .overflow) :
    c.Overreaches now ∨ ∃ cutoff found, (answer store (.scan cutoff)).1 = .ok found ∧
      ∃ m ∈ found, m.retriesFull = true := by
  rw [Monitor.recover] at h
  split at h
  · cases h
  · rename_i threshold hthreshold
    have hnanos := Instant.ofDuration?_nanos hthreshold
    rw [monitor, Duration.toNanos_ofMillis] at hnanos
    split at h
    · rename_i hback
      have hspan : c.heartbeatTimeout.toNat < 2 ^ 63 := by
        by_contra hlong
        have hnone := Span.ofDuration?_ofMillis_eq_none_iff.mpr (not_lt.mp hlong)
        cases hnone.symm.trans hthreshold
      have hover := (Instant.shift?_back_eq_none_iff (by omega)).mp hback
      exact .inl ⟨hspan, by omega⟩
    · rename_i cutoff _
      rw [Procedure.run_bind, Procedure.run_ask] at h
      split at h
      · cases h
      · rename_i found hfound
        refine .inr ⟨cutoff, found, hfound, ?_⟩
        by_contra hfull
        exact Monitor.recoverEach_room (by simpa using hfull) _ _ _ h

end Config

/-! ## Retries -/

theorem Backend.Holds.scanned {cut : Instant → Instant} {b : Backend} {s : Memory}
    {log : List Entry} (h : b.Holds cut s) (hr : b.Keeps log s) {cutoff : Instant}
    {found : List Message} (hfound : (b.answer (.scan cutoff)).1 = .ok found) :
    ∀ m ∈ found, m ∈ s.messages ∧ m.status = .processing := by
  intro m hm
  cases h with
  | memory =>
      obtain rfl := Except.ok.inj hfound
      obtain ⟨hstored, hexpired⟩ := List.mem_filter.mp hm
      exact ⟨hstored, Message.leaseExpired_processing hexpired⟩
  | @table t _ hshown =>
      -- the column of the cutoff need not be the text of a time, and only the status is looked at
      change t.scan cutoff = .ok found at hfound
      rw [← hshown, Table.scan, Table.rows_showing, ok_bind] at hfound
      simp only [List.filter_map] at hfound
      rw [read_map _ _ MessageRow.cellsOf (fun a _ => MessageRow.cells_ofMessage a) fun a ha =>
        MessageRow.decode_ofMessage ((hr t rfl).stored a (List.mem_of_mem_filter ha))] at hfound
      obtain rfl := Except.ok.inj hfound
      obtain ⟨hstored, hexpired⟩ := List.mem_filter.mp hm
      refine ⟨hstored, ?_⟩
      rw [Function.comp_apply, MessageRow.leaseExpired, Bool.and_eq_true] at hexpired
      exact eq_of_beq ((MessageRow.processing_text m.status).symm.trans hexpired.1)

/-- Where the retries of a message that is processing leave no room for another, they count as many
hand-outs as there are words. -/
theorem Trace.handouts_of_full {allowed : MonitorConfig → Prop} {cut : Instant → Instant}
    {readings : List Instant} {log : List Entry} {s : Memory}
    (h : Trace allowed cut readings log s) {m : Message} (hm : m ∈ s.messages)
    (hheld : m.status = .processing) (hfull : m.retriesFull = true) :
    UInt32.size ≤ handouts m.id log := by
  obtain ⟨hcount, -⟩ := (h.counted hm).taken (.inl hheld)
  rw [hcount]
  exact of_decide_eq_true hfull

namespace Config

/-- Accepting settings overflows for a heartbeat interval of half the words or more. A recovery pass
on a store of a run overflows where the timeout reaches over the first instant, and otherwise only on
a message that was handed out as often as there are words of 32 bits; a timeout reaches over the
first instant from none of the years 0 to 9999 if it is no longer than from the first instant to the
year 0, or is refused. -/
theorem overflow_exact (c : Config) :
    (c.validate = .error .overflow ↔
      c.workerCount ≠ 0 ∧ c.maxRetries ≠ 0 ∧ c.heartbeatInterval < c.heartbeatTimeout ∧
        2 ^ 63 ≤ c.heartbeatInterval.toNat) ∧
    ((∀ now : Instant, now.FourDigitYear → ¬ c.Overreaches now) ↔
      c.heartbeatTimeout.toNat ≤ 8272434009600000 ∨ 2 ^ 63 ≤ c.heartbeatTimeout.toNat) ∧
    ∀ {S σ : Type} {allowed : MonitorConfig → Prop} {w : World}, w.Reachable allowed → w.Dated →
      ∀ (now : Instant) (answer : σ → (c : Call) → c.Reply × σ) (store : σ) (registry : S),
        (∀ cutoff found, (answer store (.scan cutoff)).1 = .ok found →
          (w.store.answer (.scan cutoff)).1 = .ok found) →
        let result := ((Monitor.recover c.monitor now).run answer store registry).1
        (c.Overreaches now → result = .error .overflow) ∧
          (result = .error .overflow → c.Overreaches now ∨
            ∃ m, w.store.Shows m ∧ m.status = .processing ∧
              UInt32.size ≤ handouts m.id w.log) := by
  refine ⟨validate_overflow_iff, never_overreaches_iff, ?_⟩
  intro S σ allowed w hw hdated now answer store registry hscans result
  refine ⟨fun hover => recover_of_overreaches hover store registry, fun hresult => ?_⟩
  obtain ⟨⟨cut, s, htraced⟩, -⟩ := hw.trace hdated
  rcases recover_overflow hresult with hover | ⟨cutoff, found, hfound, m, hm, hfull⟩
  · exact .inl hover
  · obtain ⟨hstored, hheld⟩ := htraced.holds.scanned htraced.keeps (hscans cutoff found hfound) m hm
    exact .inr ⟨m, htraced.shows_iff.mpr hstored, hheld,
      htraced.trace.handouts_of_full hstored hheld hfull⟩

/-- A pass over a lease that expired, with the settings as they are by default and with a timeout of
285,000 years. -/
theorem overflow_exact_held :
    ∃ w : World, w.log.length = 2 ∧
      let now : Instant := ⟨120, 0, by decide⟩
      let pass (c : Config) :=
        ((Monitor.recover c.monitor now).run Backend.answer w.store ()).1
      let long : Config := { heartbeatTimeout := 9000000000000000 }
      long.validate = .ok () ∧ pass long = .error .overflow ∧ pass {} ≠ .error .overflow := by
  let insert : Call := .insert { payload := [1] } ⟨.ofNat 1⟩ .epoch
  let claim : Call := .claim [] ⟨"a"⟩ .epoch
  let waiting := NewMessage.toMessage { payload := [1] } ⟨.ofNat 1⟩ 1 .epoch
  let held := waiting.beginLease ⟨"a"⟩ .epoch
  let log : List Entry := [⟨insert, .ok ⟨.ofNat 1⟩⟩, ⟨claim, .ok (some held)⟩]
  let w : World := ⟨.memory ⟨[held], [], 1⟩, .epoch, [], [.done (), .done ()], log⟩
  let now : Instant := ⟨120, 0, by decide⟩
  have hstart : World.Reachable (fun _ => True) _ := .memory .epoch
  have hinsert := hstart.step (@World.Step.begin _ _ (.call insert) ⟨rfl, rfl⟩)
  have hinserted := hinsert.step (@World.Step.call _ _ [] [] insert _ rfl (by decide))
  change World.Reachable _ ⟨.memory ⟨[waiting], [], 1⟩, .epoch, [], [.done ()],
    [⟨insert, .ok ⟨.ofNat 1⟩⟩]⟩ at hinserted
  have hclaim := hinserted.step (@World.Step.begin _ _ (.claim ⟨"a"⟩ []) trivial)
  have hclaimed := hclaim.step (@World.Step.call _ _ [] [.done ()] claim _ rfl (by decide))
  change w.Reachable _ at hclaimed
  have hdated : w.Dated := fun e he t ht => by cases ht
  refine ⟨w, rfl, by decide +kernel, ?_, fun hdefault => ?_⟩
  · have hlong := (overflow_exact { heartbeatTimeout := 9000000000000000 }).2.2 hclaimed hdated now
      Backend.answer _ () fun _ _ h => h
    exact hlong.1 (by rw [Overreaches]; decide +kernel)
  · have hpass := (overflow_exact {}).2.2 hclaimed hdated now Backend.answer _ () fun _ _ h => h
    rcases hpass.2 hdefault with hover | ⟨m, -, -, hmany⟩
    · revert hover
      rw [Overreaches]
      decide +kernel
    · have hfew : handouts m.id log ≤ 2 := List.countP_le_length
      exact absurd (hmany.trans hfew) (by decide)

/-- Neither step is safe for all settings that come to it. -/
theorem not_forall_overflow_free :
    (¬ ∀ c : Config, c.validate ≠ .error .overflow) ∧
      ¬ ∀ (c : Config) (now : Instant) (w : World), c.validate = .ok () → now.FourDigitYear →
        w.Reachable (· = c.monitor) → w.Dated →
          ((Monitor.recover c.monitor now).run Backend.answer w.store ()).1 ≠ .error .overflow := by
  constructor
  · intro hall
    exact hall { heartbeatInterval := 9223372036854775808, heartbeatTimeout := 9223372036854775809 }
      (by decide +kernel)
  · intro hall
    exact hall { heartbeatTimeout := 9000000000000000 } .epoch
      (World.start (.memory .empty) .epoch) (by decide +kernel) (by decide +kernel)
      (.memory .epoch) (fun e he => by cases he) (by decide +kernel)

end Config

end WorkQueue
