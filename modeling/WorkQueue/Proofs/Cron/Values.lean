import Mathlib
import WorkQueue.Cron.Schedule

/-! # Values of cron fields

Whatever the entries of a field are, the values that they select stand in ascending order and within
the bounds of the field.
-/

namespace WorkQueue.Cron

/-- The values are in ascending order and within the bounds of the field. -/
structure Field.Lists (f : Field) (values : List Nat) : Prop where
  ascending : values.Pairwise (· < ·)
  within : ∀ n ∈ values, f.least ≤ n ∧ n ≤ f.most

/-- The values of all fields are in ascending order and within bounds. -/
structure Fields.Ordered (f : Fields) : Prop where
  seconds : Field.seconds.Lists f.seconds
  minutes : Field.minutes.Lists f.minutes
  hours : Field.hours.Lists f.hours
  daysOfMonth : Field.daysOfMonth.Lists f.daysOfMonth
  months : Field.months.Lists f.months
  daysOfWeek : Field.daysOfWeek.Lists f.daysOfWeek
  years : Field.years.Lists f.years

section Stretches

variable {f : Field} {s : Stretch}

theorem Field.between?_least {a b : Nat} (h : f.between? a b = some s) : f.least ≤ s.first := by
  unfold between? at h
  split at h
  · rename_i hfits
    obtain rfl := Option.some.inj h
    simp only [admits, Bool.and_eq_true, decide_eq_true_eq] at hfits
    exact hfits.1.1.1
  · cases h

theorem Selector.stretch?_least {sel : Selector} (h : sel.stretch? f = some s) :
    f.least ≤ s.first := by
  cases sel with
  | all =>
      obtain rfl := Option.some.inj h
      exact Nat.le_refl _
  | point n => exact Field.between?_least h
  | range a b => exact Field.between?_least h
  | name w =>
      obtain ⟨a, -, h⟩ := Option.bind_eq_some_iff.mp h
      obtain ⟨b, -, h⟩ := Option.bind_eq_some_iff.mp h
      exact Field.between?_least h
  | nameRange v w =>
      obtain ⟨a, -, h⟩ := Option.bind_eq_some_iff.mp h
      obtain ⟨b, -, h⟩ := Option.bind_eq_some_iff.mp h
      exact Field.between?_least h

theorem Entry.stretch?_least {e : Entry} (h : e.stretch? f = some s) : f.least ≤ s.first := by
  unfold stretch? at h
  split at h
  · exact Selector.stretch?_least h
  · split at h
    · cases h
    · -- a step changes neither end of what the selector stands for
      split at h
      · obtain ⟨t, ht, rfl⟩ := Option.map_eq_some_iff.mp h
        have hleast := Field.between?_least ht
        exact hleast
      · obtain ⟨t, ht, rfl⟩ := Option.map_eq_some_iff.mp h
        have hleast := Selector.stretch?_least ht
        exact hleast

theorem stretch?_of_mem {entries : List Entry} {stretches : List Stretch}
    (h : entries.mapM (·.stretch? f) = some stretches) (hs : s ∈ stretches) :
    ∃ e ∈ entries, e.stretch? f = some s := by
  induction entries generalizing stretches with
  | nil =>
      obtain rfl := Option.some.inj h
      cases hs
  | cons e rest ih =>
      rw [List.mapM_cons] at h
      obtain ⟨t, ht, h⟩ := Option.bind_eq_some_iff.mp h
      obtain ⟨ts, hts, h⟩ := Option.bind_eq_some_iff.mp h
      obtain rfl := Option.some.inj h
      rcases List.mem_cons.mp hs with rfl | hs
      · exact ⟨e, List.mem_cons_self, ht⟩
      · obtain ⟨a, ha, hread⟩ := ih hts hs
        exact ⟨a, List.mem_cons_of_mem e ha, hread⟩

end Stretches

theorem Field.values?_lists {f : Field} {entries : List Entry} {values : List Nat}
    (h : f.values? entries = some values) : f.Lists values := by
  obtain ⟨stretches, hread, h⟩ := Option.bind_eq_some_iff.mp h
  obtain rfl := Option.some.inj h
  constructor
  · exact List.pairwise_lt_range.filter _
  · intro n hn
    obtain ⟨hrange, hcovered⟩ := List.mem_filter.mp hn
    obtain ⟨s, hs, hcovers⟩ := List.any_eq_true.mp hcovered
    obtain ⟨e, -, hstretch⟩ := stretch?_of_mem hread hs
    simp only [Stretch.covers, Bool.and_eq_true, decide_eq_true_eq] at hcovers
    exact ⟨(Entry.stretch?_least hstretch).trans hcovers.1.1,
      Nat.le_of_lt_succ (List.mem_range.mp hrange)⟩

theorem Reader.field_lists {f : Field} {s : Reader Selector} {cs rest : List Char}
    {values : List Nat} (h : Reader.field f s cs = some (values, rest)) : f.Lists values := by
  obtain ⟨⟨x, cs'⟩, -, h⟩ := Option.bind_eq_some_iff.mp h
  obtain ⟨found, hvalues, h⟩ := Option.bind_eq_some_iff.mp h
  obtain ⟨rfl, -⟩ := Prod.mk.inj (Option.some.inj h)
  exact Field.values?_lists hvalues

theorem Reader.years_lists {cs rest : List Char} {values : List Nat}
    (h : (Reader.field .years Reader.selector).orElse
      (fun cs => (Field.years.values? [⟨.all, none⟩]).map (·, cs)) cs = some (values, rest)) :
    Field.years.Lists values := by
  unfold Reader.orElse at h
  split at h
  · rename_i r hr
    obtain rfl := Option.some.inj h
    exact Reader.field_lists hr
  · obtain ⟨found, hvalues, h⟩ := Option.map_eq_some_iff.mp h
    obtain ⟨rfl, -⟩ := Prod.mk.inj h
    exact Field.values?_lists hvalues

theorem Fields.read?_ordered {cs : List Char} {f : Fields} (h : Fields.read? cs = some f) :
    f.Ordered := by
  obtain ⟨⟨seconds, cs⟩, hseconds, h⟩ := Option.bind_eq_some_iff.mp h
  obtain ⟨⟨minutes, cs⟩, hminutes, h⟩ := Option.bind_eq_some_iff.mp h
  obtain ⟨⟨hours, cs⟩, hhours, h⟩ := Option.bind_eq_some_iff.mp h
  obtain ⟨⟨daysOfMonth, cs⟩, hdaysOfMonth, h⟩ := Option.bind_eq_some_iff.mp h
  obtain ⟨⟨months, cs⟩, hmonths, h⟩ := Option.bind_eq_some_iff.mp h
  obtain ⟨⟨daysOfWeek, cs⟩, hdaysOfWeek, h⟩ := Option.bind_eq_some_iff.mp h
  obtain ⟨⟨years, cs⟩, hyears, h⟩ := Option.bind_eq_some_iff.mp h
  dsimp only at h
  split at h
  · obtain rfl := Option.some.inj h
    exact {
      seconds := Reader.field_lists hseconds
      minutes := Reader.field_lists hminutes
      hours := Reader.field_lists hhours
      daysOfMonth := Reader.field_lists hdaysOfMonth
      months := Reader.field_lists hmonths
      daysOfWeek := Reader.field_lists hdaysOfWeek
      years := Reader.years_lists hyears }
  · cases h

theorem Schedule.parse_ordered {expression : String} {s : Schedule}
    (h : parse expression = .ok s) : s.fields.Ordered := by
  unfold parse at h
  dsimp only at h
  split at h
  · cases h
  · split at h
    · cases h
    · rename_i hfields
      obtain rfl := Except.ok.inj h
      exact Fields.read?_ordered hfields

end WorkQueue.Cron
