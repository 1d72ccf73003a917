import Mathlib
import WorkQueue.Proofs.Lease.Reclaim

/-! # Monitors side by side

Any number of recovery passes, each with its own configuration, are under way on one store, and
other calls come in between. The clock never goes back, and claims and renewals read it when they
are made. A pass is watched call by call, so its report can be held against its calls.
-/

namespace WorkQueue

/-- The report with one more call counted. -/
def RecoveryReport.count (report : RecoveryReport) : Entry → RecoveryReport
  | ⟨.reset _, .ok true⟩ => { report with reset := report.reset + 1 }
  | ⟨.poison .., .ok true⟩ => { report with poisoned := report.poisoned + 1 }
  | ⟨.reset _, .ok false⟩ => { report with skipped := report.skipped + 1 }
  | ⟨.poison .., .ok false⟩ => { report with skipped := report.skipped + 1 }
  | _ => report

/-- The report counts the calls of a pass, which are one for each message that its scan found. -/
structure RecoveryReport.Accounts (report : RecoveryReport) (found : List Message)
    (entries : List Entry) : Prop where
  taken : entries.map (·.call.snapshot?) = found.map some
  counted : report = entries.foldl count {}
  total : report.reset + report.poisoned + report.skipped = found.length

theorem RecoveryReport.Accounts.nil : RecoveryReport.Accounts {} [] [] := ⟨rfl, rfl, rfl⟩

theorem RecoveryReport.Accounts.concat {report : RecoveryReport} {found : List Message}
    {entries : List Entry} (h : report.Accounts found entries) {e : Entry} {m : Message}
    (hm : e.call.snapshot? = some m)
    (htotal : (report.count e).reset + (report.count e).poisoned + (report.count e).skipped =
      report.reset + report.poisoned + report.skipped + 1) :
    (report.count e).Accounts (found ++ [m]) (entries ++ [e]) where
  taken := by simp [h.taken, hm]
  counted := by rw [List.foldl_append, ← h.counted]; rfl
  total := by rw [htotal, h.total, List.length_append, List.length_singleton]

/-! ## One pass -/

/-- A recovery pass: the clock at its start, the calls it made so far, and what is left of it. -/
structure Pass where
  config : MonitorConfig
  start : Instant
  made : List Entry
  rest : Procedure Registry (Except QueueError RecoveryReport)

namespace Pass

/-- Where a pass stands after its calls. -/
inductive Progress (config : MonitorConfig) (start : Instant) :
    List Entry → Procedure Registry (Except QueueError RecoveryReport) → Prop
  | begun : Progress config start [] (Monitor.recover config start)
  | scanned {cutoff : Instant} {found done todo : List Message} {entries : List Entry}
      {report : RecoveryReport} (split : found = done ++ todo)
      (accounts : report.Accounts done entries) :
      Progress config start (⟨.scan cutoff, .ok found⟩ :: entries)
        (Monitor.recoverEach config.maxRetries todo report)
  | failed {made : List Entry} {c : Call} {e : StoreError} :
      Progress config start (made ++ [⟨c, .error e⟩]) (.done (.error (.store e)))

variable {config : MonitorConfig} {start : Instant} {made : List Entry}
  {rest : Procedure Registry (Except QueueError RecoveryReport)}

/-- What a pass calls next. -/
inductive Next (start : Instant) : Call → Prop
  | scan {cutoff : Instant} (earlier : cutoff ≤ start) : Next start (.scan cutoff)
  | reset (m : Message) : Next start (.reset m)
  | poison (m : Message) (reason : String) : Next start (.poison m reason)

theorem Progress.step (h : Progress config start made rest) {c : Call}
    {next : c.Reply → Procedure Registry (Except QueueError RecoveryReport)}
    (hrest : rest = .call c next) :
    Next start c ∧ ∀ r, Progress config start (made ++ [⟨c, r⟩]) (next r) := by
  cases h with
  | begun =>
      rw [Monitor.recover] at hrest
      split at hrest
      · cases hrest
      · rename_i threshold hthreshold
        split at hrest
        · cases hrest
        · rename_i cutoff hcutoff
          obtain ⟨rfl, hnext⟩ := Procedure.call.inj hrest
          obtain rfl := eq_of_heq hnext
          refine ⟨.scan (Instant.shift?_back_le ?_ hcutoff), fun r => ?_⟩
          · exact Instant.ofDuration?_nanos hthreshold ▸ Int.natCast_nonneg _
          · cases r with
            | error e => exact @failed config start [] _ _
            | ok found => exact @scanned config start cutoff found [] found [] {} rfl .nil
  | @scanned cutoff found done todo entries report hsplit haccounts =>
      cases todo with
      | nil => cases hrest
      | cons m todo =>
          have hsplit' : found = (done ++ [m]) ++ todo := by rw [hsplit, List.append_cons]
          have more {e : Entry} (hm : e.call.snapshot? = some m)
              (htotal : (report.count e).reset + (report.count e).poisoned +
                (report.count e).skipped = report.reset + report.poisoned + report.skipped + 1) :
              Progress config start (⟨.scan cutoff, .ok found⟩ :: (entries ++ [e]))
                (Monitor.recoverEach config.maxRetries todo (report.count e)) :=
            .scanned hsplit' (haccounts.concat hm htotal)
          rw [Monitor.recoverEach] at hrest
          split at hrest
          · cases hrest
          · split at hrest
            · obtain ⟨rfl, hnext⟩ := Procedure.call.inj hrest
              obtain rfl := eq_of_heq hnext
              refine ⟨.poison m _, fun r => ?_⟩
              cases r with
              | error e => exact .failed
              | ok taken =>
                  cases taken with
                  | true =>
                      exact more (e := ⟨.poison m _, .ok true⟩) rfl
                        (by simp only [RecoveryReport.count]; omega)
                  | false =>
                      exact more (e := ⟨.poison m _, .ok false⟩) rfl
                        (by simp only [RecoveryReport.count]; omega)
            · obtain ⟨rfl, hnext⟩ := Procedure.call.inj hrest
              obtain rfl := eq_of_heq hnext
              refine ⟨.reset m, fun r => ?_⟩
              cases r with
              | error e => exact .failed
              | ok taken =>
                  cases taken with
                  | true =>
                      exact more (e := ⟨.reset m, .ok true⟩) rfl
                        (by simp only [RecoveryReport.count]; omega)
                  | false =>
                      exact more (e := ⟨.reset m, .ok false⟩) rfl
                        (by simp only [RecoveryReport.count]; omega)
  | failed => cases hrest

/-- How a pass ends: with a report on all that its scan found, with an error of the store, without a
scan because its cutoff is out of range, or at a message with no room for one more retry. -/
inductive Outcome : List Entry → Except QueueError RecoveryReport → Prop
  | reported {cutoff : Instant} {found : List Message} {entries : List Entry}
      {report : RecoveryReport} (accounts : report.Accounts found entries) :
      Outcome (⟨.scan cutoff, .ok found⟩ :: entries) (.ok report)
  | failed {made : List Entry} {c : Call} {e : StoreError} :
      Outcome (made ++ [⟨c, .error e⟩]) (.error (.store e))
  | unscanned {e : QueueError} (range : e = .thresholdRange ∨ e = .overflow) :
      Outcome [] (.error e)
  | full {cutoff : Instant} {found : List Message} {entries : List Entry} {m : Message}
      (mem : m ∈ found) (full : m.retriesFull = true) :
      Outcome (⟨.scan cutoff, .ok found⟩ :: entries) (.error .overflow)

theorem Progress.outcome (h : Progress config start made rest)
    {result : Except QueueError RecoveryReport} (hrest : rest = .done result) :
    Outcome made result := by
  cases h with
  | begun =>
      rw [Monitor.recover] at hrest
      split at hrest
      · obtain rfl := Procedure.done.inj hrest
        exact .unscanned (.inl rfl)
      · split at hrest
        · obtain rfl := Procedure.done.inj hrest
          exact .unscanned (.inr rfl)
        · cases hrest
  | @scanned cutoff found done todo entries report hsplit haccounts =>
      cases todo with
      | nil =>
          obtain rfl := Procedure.done.inj hrest
          rw [List.append_nil] at hsplit
          exact .reported (hsplit ▸ haccounts)
      | cons m todo =>
          rw [Monitor.recoverEach] at hrest
          split at hrest
          · rename_i hfull
            obtain rfl := Procedure.done.inj hrest
            exact .full (hsplit ▸ List.mem_append_right _ List.mem_cons_self) hfull
          · split at hrest <;> cases hrest
  | failed =>
      obtain rfl := Procedure.done.inj hrest
      exact .failed

variable {c : Call} {log : List Entry}

theorem Next.fresh (h : Next start c) (log : List Entry) : c.Fresh log := by
  cases h <;> exact ⟨fun id hid => (by cases hid), fun token htoken => (by cases htoken)⟩

theorem Next.scan_le (h : Next start c) {cutoff : Instant} (hscan : c = .scan cutoff) :
    cutoff ≤ start := by
  cases h with
  | scan hle => exact Call.scan.inj hscan ▸ hle
  | reset | poison => cases hscan

theorem Next.reading?_eq_none (h : Next start c) : c.reading? = none := by
  cases h <;> rfl

end Pass

/-! ## Passes side by side -/

/-- A store with the recovery passes that are under way on it. -/
structure Patrol where
  store : Backend
  clock : Instant
  /-- The earlier readings of the clock, the latest first. -/
  past : List Instant
  passes : List Pass
  /-- The calls made so far, oldest first. -/
  log : List Entry

namespace Patrol

def readings (p : Patrol) : List Instant := p.clock :: p.past

def empty (store : Backend) (clock : Instant) : Patrol := ⟨store, clock, [], [], []⟩

/-- A step of a run. Calls that no pass makes take no lease back and scan for none, and they read
the clock when they are made: a claim or a renewal whose reading is older than the call is left out
(`prompt`). A pass goes on with the reading it started with. -/
inductive Step : Patrol → Patrol → Prop
  | tick {p : Patrol} {now : Instant} (later : p.clock ≤ now) :
      Step p { p with clock := now, past := p.readings }
  | start {p : Patrol} (config : MonitorConfig) :
      Step p { p with
        passes := ⟨config, p.clock, [], Monitor.recover config p.clock⟩ :: p.passes }
  | pass {p : Patrol} {before after : List Pass} {pass : Pass} {c : Call}
      {next : c.Reply → Procedure Registry (Except QueueError RecoveryReport)}
      (under : p.passes = before ++ pass :: after) (rest : pass.rest = .call c next) :
      Step p { p with
        store := (p.store.answer c).2
        log := p.log ++ [⟨c, (p.store.answer c).1⟩]
        passes := before ++ { pass with
          made := pass.made ++ [⟨c, (p.store.answer c).1⟩]
          rest := next (p.store.answer c).1 } :: after }
  | call {p : Patrol} {c : Call} (fresh : c.Fresh p.log) (quiet : c.snapshot? = none)
      (blind : ∀ cutoff, c ≠ .scan cutoff) (prompt : ∀ t ∈ c.reading?, t = p.clock) :
      Step p { p with
        store := (p.store.answer c).2
        log := p.log ++ [⟨c, (p.store.answer c).1⟩] }

/-- What steps lead to from an empty store. -/
inductive Reachable : Patrol → Prop
  | memory (clock : Instant) : Reachable (empty (.memory .empty) clock)
  | table (clock : Instant) : Reachable (empty (.table .empty) clock)
  | step {p p' : Patrol} (reachable : Reachable p) (step : Step p p') : Reachable p'

/-- If the store is a table, all times of the calls have years of four digits. -/
def Dated (p : Patrol) : Prop := ∀ e ∈ p.log, p.store.Takes e.call

variable {p p' : Patrol}

/-- What was scanned for lies in the past, and what was called later reads the clock later. -/
def Ordered (p : Patrol) : Prop :=
  ∀ earlier cutoff r later, p.log = earlier ++ ⟨.scan cutoff, r⟩ :: later →
    cutoff ≤ p.clock ∧ ∀ e ∈ later, ∀ t ∈ e.call.reading?, cutoff ≤ t

/-- What holds of every pass under way. -/
structure Follows (p : Patrol) (pass : Pass) : Prop where
  progress : Pass.Progress pass.config pass.start pass.made pass.rest
  started : pass.start ≤ p.clock
  made : pass.made.Sublist p.log
  obeys : pass.rest.Obeys (fun _ => True) p.readings p.log

theorem Step.dated (h : Step p p') (hdated : p'.Dated) : p.Dated := by
  cases h with
  | pass | call =>
      intro e he
      exact Backend.takes_answer (hdated e (List.mem_append_left _ he))
  | _ => exact hdated

theorem Ordered.call (h : p.Ordered) {e : Entry}
    (hscan : ∀ cutoff, e.call = .scan cutoff → cutoff ≤ p.clock)
    (hprompt : ∀ t ∈ e.call.reading?, t = p.clock) (store : Backend) (passes : List Pass) :
    Ordered { p with store, passes, log := p.log ++ [e] } := by
  intro earlier cutoff r later hlog
  rcases log_cases hlog with ⟨rfl, -, rfl⟩ | ⟨before, rfl, hbefore⟩
  · exact ⟨hscan cutoff rfl, fun e he => by cases he⟩
  · obtain ⟨hcutoff, hlater⟩ := h earlier cutoff r before hbefore
    refine ⟨hcutoff, fun e' he' t ht => ?_⟩
    rcases List.mem_append.mp he' with he' | he'
    · exact hlater e' he' t ht
    · obtain rfl := List.mem_singleton.mp he'
      exact hprompt t ht ▸ hcutoff

theorem Follows.call {pass : Pass} (h : p.Follows pass) (e : Entry) (store : Backend)
    (passes : List Pass) : Follows { p with store, passes, log := p.log ++ [e] } pass where
  progress := h.progress
  started := h.started
  made := h.made.trans (List.sublist_append_left _ _)
  obeys := h.obeys.mono (List.Subset.refl _) (List.subset_append_left _ _)

theorem Reachable.ordered (h : p.Reachable) : p.Ordered ∧ ∀ pass ∈ p.passes, p.Follows pass := by
  induction h with
  | memory | table =>
      refine ⟨fun earlier cutoff r later hlog => ?_, fun pass hpass => by cases hpass⟩
      exact absurd hlog.symm (List.append_ne_nil_of_right_ne_nil _ (List.cons_ne_nil _ _))
  | @step p p' _ hstep ih =>
      obtain ⟨hordered, hfollows⟩ := ih
      cases hstep with
      | tick hlater =>
          refine ⟨fun earlier cutoff r later hlog => ?_, fun pass hpass => ?_⟩
          · obtain ⟨hcutoff, hreadings⟩ := hordered earlier cutoff r later hlog
            exact ⟨hcutoff.trans hlater, hreadings⟩
          · have hpass := hfollows pass hpass
            exact ⟨hpass.progress, hpass.started.trans hlater, hpass.made,
              hpass.obeys.mono (List.subset_cons_self _ _) (List.Subset.refl _)⟩
      | start config =>
          refine ⟨hordered, fun pass hpass => ?_⟩
          rcases List.mem_cons.mp hpass with rfl | hpass
          · exact ⟨.begun, le_refl _, List.nil_sublist _,
              Monitor.recover_obeys trivial List.mem_cons_self⟩
          · have hpass := hfollows pass hpass
            exact ⟨hpass.progress, hpass.started, hpass.made, hpass.obeys⟩
      | @pass before after pass c next hunder hrest =>
          have hmem : pass ∈ p.passes := hunder ▸ List.mem_append_right _ List.mem_cons_self
          have hpass := hfollows pass hmem
          obtain ⟨hnext, hprogress⟩ := hpass.progress.step hrest
          refine ⟨hordered.call ?_ ?_ _ _, fun other hother => ?_⟩
          · exact fun cutoff hscan => (hnext.scan_le hscan).trans hpass.started
          · intro t ht
            cases hnext.reading?_eq_none.symm.trans ht
          · rw [hunder] at hfollows
            rcases List.mem_append.mp hother with hother | hother
            · exact (hfollows other (List.mem_append_left _ hother)).call _ _ _
            · rcases List.mem_cons.mp hother with rfl | hother
              · refine ⟨hprogress _, hpass.started, hpass.made.append (List.Sublist.refl _), ?_⟩
                have hobeys := hpass.obeys
                rw [hrest] at hobeys
                exact hobeys.2 _
              · exact (hfollows other
                  (List.mem_append_right _ (List.mem_cons_of_mem _ hother))).call _ _ _
      | call hfresh hquiet hblind hprompt =>
          refine ⟨hordered.call ?_ hprompt _ _, fun pass hpass => (hfollows pass hpass).call _ _ _⟩
          exact fun cutoff hscan => absurd hscan (hblind cutoff)

theorem Reachable.traced (h : p.Reachable) (hdated : p.Dated) :
    ∃ cut s, Traced (fun _ => True) cut p.store p.readings p.log s := by
  induction h with
  | memory clock => exact ⟨id, .empty, .memory clock⟩
  | table clock => exact ⟨Instant.micros, .empty, .table clock⟩
  | @step p p' hp hstep ih =>
      obtain ⟨cut, s, htraced⟩ := ih (hstep.dated hdated)
      have htakes {e : Entry} (h : p'.log = p.log ++ [e]) : p'.store.Takes e.call :=
        hdated e (h ▸ List.mem_append_right _ (List.mem_singleton_self _))
      cases hstep with
      | @tick now => exact ⟨cut, s, htraced.tick now⟩
      | start => exact ⟨cut, s, htraced⟩
      | @pass before after pass c next hunder hrest =>
          have hpass := hp.ordered.2 pass (hunder ▸ List.mem_append_right _ List.mem_cons_self)
          have hobeys := hpass.obeys
          rw [hrest] at hobeys
          obtain ⟨hnext, -⟩ := hpass.progress.step hrest
          obtain ⟨s', -, htraced'⟩ := htraced.call (hnext.fresh _) hobeys.1 (htakes rfl)
          exact ⟨cut, s', htraced'⟩
      | @call c hfresh hquiet hblind hprompt =>
          have hlawful : c.Lawful (fun _ => True) p.readings p.log := .plain hquiet fun t ht => by
            rw [hprompt t ht]
            exact List.mem_cons_self
          obtain ⟨s', -, htraced'⟩ := htraced.call hfresh hlawful (htakes rfl)
          exact ⟨cut, s', htraced'⟩

/-- However recovery passes and other calls are interleaved, a lease is taken back once at most, and
no pass touches a lease that was renewed or ended since the scan that saw it. The report of a pass
counts every message that its scan found, and the retries of a message, in the field and in its
header, are the calls that took its lease back or requeued it. -/
theorem leases_reclaimed_once (hp : p.Reachable) (hdated : p.Dated) :
    (∀ lease, reclaims lease p.log ≤ 1) ∧
    (∀ earlier cutoff found later, p.log = earlier ++ ⟨.scan cutoff, .ok found⟩ :: later →
      ∀ m ∈ found, ∀ lease, m.lease? = some lease →
        (∃ e ∈ later, (e.renewedAt? lease).isSome ∨ e.ended? = some lease) →
          p.store.answer (.reset m) = (.ok false, p.store) ∧
            ∀ reason, p.store.answer (.poison m reason) = (.ok false, p.store)) ∧
    (∀ pass ∈ p.passes, pass.made.Sublist p.log ∧
      ∀ result, pass.rest = .done result → Pass.Outcome pass.made result) ∧
    ∀ m, p.store.Shows m → m.retryCount = retries m.id p.log ∧
      (0 < m.retryCount →
        m.headers.get? Message.retryHeader = some (Bytes.ofText (Numeral.text m.retryCount))) := by
  obtain ⟨cut, s, htraced⟩ := hp.traced hdated
  obtain ⟨hordered, hfollows⟩ := hp.ordered
  refine ⟨fun lease => htraced.trace.reclaims_le.1, ?_, fun pass hpass => ?_, fun m hm => ?_⟩
  · intro earlier cutoff found later hlog m hm lease hlease hlater
    obtain ⟨-, hprompt⟩ := hordered earlier cutoff (.ok found) later hlog
    exact htraced.recover_refused hlog hm hlease hprompt hlater
  · have h := hfollows pass hpass
    exact ⟨h.made, fun result hrest => h.progress.outcome hrest⟩
  · rw [htraced.shows_iff] at hm
    exact ⟨htraced.trace.retried.counted m hm, (htraced.trace.sound.coherent m hm).retries⟩

/-- Two monitors see the same lease. The first takes it back, and then the second cannot. -/
theorem leases_reclaimed_once_twice :
    ∃ p : Patrol, p.passes.length = 2 ∧ p.store.answer (.reset
      ((NewMessage.toMessage { payload := [1] } ⟨.ofNat 1⟩ 1 .epoch).beginLease ⟨"a"⟩ .epoch)) =
        (.ok false, p.store) := by
  let waiting := NewMessage.toMessage { payload := [1] } ⟨.ofNat 1⟩ 1 .epoch
  let held := waiting.beginLease ⟨"a"⟩ .epoch
  let inserted : Entry := ⟨.insert { payload := [1] } ⟨.ofNat 1⟩ .epoch, .ok ⟨.ofNat 1⟩⟩
  let claimed : Entry := ⟨.claim [] ⟨"a"⟩ .epoch, .ok (some held)⟩
  let scanned : Entry := ⟨.scan ⟨1, 0, by decide⟩, .ok [held]⟩
  let begun : Pass := ⟨⟨⟨1, 0, by decide⟩, ⟨1, 0, by decide⟩, ⟨1, 0, by decide⟩, ⟨1, 0, by decide⟩,
    3⟩, ⟨2, 0, by decide⟩, [], Monitor.recover ⟨⟨1, 0, by decide⟩, ⟨1, 0, by decide⟩,
      ⟨1, 0, by decide⟩, ⟨1, 0, by decide⟩, 3⟩ ⟨2, 0, by decide⟩⟩
  let looking : Pass := ⟨begun.config, begun.start, [scanned], Monitor.recoverEach 3 [held] {}⟩
  have hstart : Reachable _ := .memory .epoch
  have hinserted := hstart.step (@Step.call _ (.insert { payload := [1] } ⟨.ofNat 1⟩ .epoch)
    (by decide) rfl (fun _ => Call.noConfusion) fun t ht => by cases ht)
  have hclaimed := hinserted.step (@Step.call _ (.claim [] ⟨"a"⟩ .epoch)
    (by decide) rfl (fun _ => Call.noConfusion) fun t ht => (Option.some.inj ht).symm)
  -- the lease is two seconds old, and the thresholds are one second
  have hticked := hclaimed.step (@Step.tick _ ⟨2, 0, by decide⟩ (by decide))
  have hstarted := (hticked.step (.start begun.config)).step (.start begun.config)
  change Reachable ⟨.memory ⟨[held], [], 1⟩, ⟨2, 0, by decide⟩, [.epoch], [begun, begun],
    [inserted, claimed]⟩ at hstarted
  have hfirst := hstarted.step (@Step.pass _ [begun] [] begun (.scan ⟨1, 0, by decide⟩) _ rfl rfl)
  have hsecond := hfirst.step
    (@Step.pass _ [] [looking] begun (.scan ⟨1, 0, by decide⟩) _ rfl rfl)
  change Reachable ⟨.memory ⟨[held], [], 1⟩, ⟨2, 0, by decide⟩, [.epoch], [looking, looking],
    [inserted, claimed, scanned, scanned]⟩ at hsecond
  have hreset := hsecond.step (@Step.pass _ [looking] [] looking (.reset held) _ rfl rfl)
  obtain ⟨-, hrefused, -⟩ := leases_reclaimed_once hreset fun e he t ht => by cases ht
  have hlater := hrefused [inserted, claimed] ⟨1, 0, by decide⟩ [held]
    [scanned, ⟨.reset held, .ok true⟩] rfl held List.mem_cons_self ⟨⟨.ofNat 1⟩, ⟨"a"⟩⟩ rfl
    ⟨_, List.mem_cons_of_mem _ List.mem_cons_self, .inr rfl⟩
  exact ⟨_, rfl, hlater.1⟩

end Patrol

end WorkQueue
