import Mathlib
import WorkQueue.Proofs.Store.Renaming

/-! # The store in tables refines the store in memory

The same calls made on both stores, each empty at first, are answered alike at every step, up to the
identifiers that the stores draw and the wall clock that they read. What carries the proof is that
the table goes on showing the renamed memory.
-/

namespace WorkQueue

/-- Make calls one after the other; the calls with their replies, oldest first, and the store after
them. -/
def session {σ : Type} (answer : σ → (c : Call) → c.Reply × σ) (log : List Entry) (store : σ) :
    List Call → List Entry × σ
  | [] => (log, store)
  | c :: rest => session answer (log ++ [⟨c, (answer store c).1⟩]) (answer store c).2 rest

/-- The jobs of a store that are due, with their slots. -/
def findDue {σ : Type} (answer : σ → (c : Call) → c.Reply × σ) (store : σ) (now : Instant) :
    Except StoreError (List (String × Instant)) :=
  (answer store .loadJobs).1.map (JobRecord.dueSlots · now)

/-- Each of the calls is admissible after the calls before it. -/
def Memory.Admits (log : List Entry) (s : Memory) : List Call → Prop
  | [] => True
  | c :: rest =>
    c.Admissible log ∧ Admits (log ++ [⟨c, (s.answer c).1⟩]) (s.answer c).2 rest

instance Memory.decidableAdmits : (log : List Entry) → (s : Memory) → (calls : List Call) →
    Decidable (s.Admits log calls)
  | _, _, [] => isTrue trivial
  | _, _, _ :: rest => @instDecidableAnd _ _ inferInstance (decidableAdmits _ _ rest)

/-! ## Renamed logs -/

section Renamed

variable (ρ : Renaming) {c : Call} {log : List Entry}

theorem Call.insertedId?_renamed (c : Call) :
    (c.renamed ρ).insertedId? = c.insertedId?.map ρ.id := by
  cases c <;> rfl

theorem Call.claimToken?_renamed (c : Call) : (c.renamed ρ).claimToken? = c.claimToken? := by
  cases c <;> rfl

theorem Call.snapshot?_renamed (c : Call) :
    (c.renamed ρ).snapshot? = c.snapshot?.map (Message.renamed ρ) := by
  cases c <;> rfl

theorem Entry.found_renamed (e : Entry) :
    (e.renamed ρ).found = e.found.map (Message.renamed ρ) := by
  obtain ⟨c, r⟩ := e
  cases c <;> cases r <;> rfl

theorem Call.Admissible.renamed (h : c.Admissible log) :
    (c.renamed ρ).Admissible (log.map (Entry.renamed ρ)) where
  id_fresh := by
    rw [insertedId?_renamed]
    intro id hid e' he'
    obtain ⟨fresh, hfresh, rfl⟩ := Option.map_eq_some_iff.mp hid
    obtain ⟨e, he, rfl⟩ := List.mem_map.mp he'
    change (e.call.renamed ρ).insertedId? ≠ _
    rw [insertedId?_renamed]
    intro hsame
    obtain ⟨old, hold, hid⟩ := Option.map_eq_some_iff.mp hsame
    exact h.id_fresh fresh hfresh e he (ρ.injective hid ▸ hold)
  token_fresh := by
    rw [claimToken?_renamed]
    intro token htoken e' he'
    obtain ⟨e, he, rfl⟩ := List.mem_map.mp he'
    change (e.call.renamed ρ).claimToken? ≠ _
    rw [claimToken?_renamed]
    exact h.token_fresh token htoken e he
  snapshot_found := by
    rw [snapshot?_renamed]
    intro scanned hscanned
    obtain ⟨old, hold, rfl⟩ := Option.map_eq_some_iff.mp hscanned
    obtain ⟨e, he, hfound⟩ := h.snapshot_found old hold
    refine ⟨_, List.mem_map_of_mem he, ?_⟩
    rw [Entry.found_renamed]
    exact List.mem_map_of_mem hfound

theorem Call.Exact.dated (h : c.Exact)
    (hstamp : ∀ id ∈ c.insertedId?, (ρ.stamp id).FourDigitYear) : (c.renamed ρ).Dated where
  times := by
    have htimes : (c.renamed ρ).times = c.times := by cases c <;> rfl
    rw [htimes]
    exact fun t ht => (h.times t ht).1
  stamp := by
    cases c with
    | insert _ id => exact fun t ht => Option.some.inj ht ▸ hstamp id rfl
    | _ => exact fun t ht => by cases ht

theorem Call.window?_renamed (c : Call) : (c.renamed ρ).window? = c.window? := by
  cases c <;> rfl

end Renamed

namespace Table

/-- What holds all along two sessions: the table shows the renamed memory, about which the renamed
log tells enough. -/
structure Follows (ρ : Renaming) (log : List Entry) (s : Memory) (t : Table) : Prop where
  shows : t.Shows (s.renamed ρ)
  sound : (s.renamed ρ).Sound (log.map (Entry.renamed ρ))
  recorded : (s.renamed ρ).Recorded (log.map (Entry.renamed ρ))

variable {ρ : Renaming} {log : List Entry} {s : Memory} {t : Table} {c : Call}

theorem Follows.step (h : Follows ρ log s t) (hc : c.Admissible log) (hexact : c.Exact)
    (hstamp : ∀ id ∈ c.insertedId?, (ρ.stamp id).FourDigitYear) :
    (t.answer (c.renamed ρ)).1 = c.renameReply ρ (s.answer c).1 ∧
      Follows ρ (log ++ [⟨c, (s.answer c).1⟩]) (s.answer c).2 (t.answer (c.renamed ρ)).2 := by
  have hadmissible := hc.renamed ρ
  have hdated := hexact.dated ρ hstamp
  obtain ⟨hreply, hshows⟩ := h.shows.step h.sound h.recorded hadmissible hdated
    (Call.window?_renamed ρ c ▸ hexact.window)
  have heffect := Memory.answerThrough_effect Instant.micros h.sound.distinct (c.renamed ρ)
  rw [Memory.answer_renamed ρ s hexact] at hreply hshows heffect
  have hsound := h.sound.step hadmissible heffect
  have hrecorded := h.recorded.step h.sound hdated heffect
  refine ⟨hreply, hshows, ?_, ?_⟩
  · rw [List.map_append]
    exact hsound
  · rw [List.map_append]
    exact hrecorded

theorem Follows.run {calls : List Call} (h : Follows ρ log s t) (hcalls : s.Admits log calls)
    (hexact : ∀ c ∈ calls, c.Exact)
    (hstamp : ∀ c ∈ calls, ∀ id ∈ c.insertedId?, (ρ.stamp id).FourDigitYear) :
    (session answer (log.map (Entry.renamed ρ)) t (calls.map (Call.renamed ρ))).1 =
        (session Memory.answer log s calls).1.map (Entry.renamed ρ) ∧
      Follows ρ (session Memory.answer log s calls).1 (session Memory.answer log s calls).2
        (session answer (log.map (Entry.renamed ρ)) t (calls.map (Call.renamed ρ))).2 := by
  induction calls generalizing log s t with
  | nil => exact ⟨rfl, h⟩
  | cons c rest ih =>
      obtain ⟨hc, hrest⟩ := hcalls
      obtain ⟨hreply, hnext⟩ :=
        h.step hc (hexact c List.mem_cons_self) (hstamp c List.mem_cons_self)
      have hlog : log.map (Entry.renamed ρ) ++
            [(⟨c.renamed ρ, (t.answer (c.renamed ρ)).1⟩ : Entry)] =
          (log ++ [(⟨c, (s.answer c).1⟩ : Entry)]).map (Entry.renamed ρ) := by
        rw [hreply, List.map_append]
        rfl
      rw [List.map_cons, session, session, hlog]
      exact ih hnext hrest (fun a ha => hexact a (List.mem_cons_of_mem c ha))
        fun a ha => hstamp a (List.mem_cons_of_mem c ha)

/-- Both stores give the same replies to the same calls at every step, up to what they draw, and
find the same jobs due after them. -/
theorem refines_memory (ρ : Renaming) (calls : List Call) (hcalls : Memory.empty.Admits [] calls)
    (hexact : ∀ c ∈ calls, c.Exact)
    (hstamp : ∀ c ∈ calls, ∀ id ∈ c.insertedId?, (ρ.stamp id).FourDigitYear) :
    let memory := session Memory.answer [] .empty calls
    let table := session answer [] .empty (calls.map (Call.renamed ρ))
    table.1 = memory.1.map (Entry.renamed ρ) ∧
      ∀ now, findDue answer table.2 now = findDue Memory.answer memory.2 now := by
  have hstart : Follows ρ [] .empty .empty := ⟨.empty, .empty, .empty⟩
  obtain ⟨hlog, hfollows⟩ := hstart.run hcalls hexact hstamp
  exact ⟨hlog, fun now => congrArg (·.map (JobRecord.dueSlots · now))
    (loadJobs_shown hfollows.shows.toShowsJobs)⟩

/-- A message that is claimed and whose lease is taken back, with identifiers exchanged. -/
theorem refines_memory_reset :
    let first : MessageId := ⟨.ofNat 1⟩
    let ρ : Renaming := ⟨Equiv.swap first ⟨.ofNat 2⟩, fun _ => .epoch, Equiv.injective _⟩
    let held := (NewMessage.toMessage { payload := [1] } first 1 .epoch).beginLease ⟨"a"⟩ .epoch
    let calls : List Call := [.insert { payload := [1] } first .epoch, .claim [] ⟨"a"⟩ .epoch,
      .scan ⟨1, 0, by decide⟩, .reset held]
    (session answer [] .empty (calls.map (Call.renamed ρ))).1 =
      (session Memory.answer [] .empty calls).1.map (Entry.renamed ρ) := by
  intro first ρ held calls
  exact (refines_memory ρ calls (by decide) (by decide) (by decide)).1

end Table

end WorkQueue
