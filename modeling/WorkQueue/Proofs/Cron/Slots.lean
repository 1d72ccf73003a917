import Mathlib
import WorkQueue.Proofs.Cron.Values
import WorkQueue.Proofs.Instant.Order
import WorkQueue.Proofs.Text.Numeral

/-! # Fire times and slots

Two fire times of a schedule lie in different slots if slots are seconds, or if they are minutes and
one second is selected. Slots are minutes when the first word is a number; the seconds end there
unless the next word goes on with a comma, a dash or a slash, for blanks may stand around these.
-/

namespace WorkQueue

namespace Text

theorem words_solid (sep : Char → Bool) (cs : List Char) :
    ∀ w ∈ words sep cs, w ≠ [] ∧ ∀ c ∈ w, sep c = false := by
  induction cs with
  | nil => simp [words]
  | cons c cs ih =>
      unfold words
      split
      · exact ih
      · rename_i hc
        have hfirst : [c] ≠ [] ∧ ∀ x ∈ [c], sep x = false := by simpa using hc
        split
        · rename_i w ws hws
          rw [hws, List.forall_mem_cons] at ih
          split
          · exact List.forall_mem_cons.mpr ⟨hfirst, List.forall_mem_cons.mpr ih⟩
          · refine List.forall_mem_cons.mpr ⟨⟨List.cons_ne_nil _ _, ?_⟩, ih.2⟩
            exact List.forall_mem_cons.mpr ⟨by simpa using hc, ih.1.2⟩
        · exact List.forall_mem_cons.mpr ⟨hfirst, ih⟩

end Text

namespace Cron

open Numeral

/-! ## Slots as buckets -/

theorem Granularity.truncate_parts (g : Granularity) (t : Instant) :
    (g.truncate t).seconds = t.seconds - t.seconds % g.unitSeconds ∧ (g.truncate t).nanos = 0 := by
  have hvalid : Instant.Valid (t.seconds - t.seconds % g.unitSeconds) 0 := by
    have := t.valid
    cases g <;> simp only [Instant.Valid, Granularity.unitSeconds] at * <;> omega
  have hmake : g.truncate t = ⟨_, 0, hvalid⟩ := by
    rw [truncate, Instant.make?, dif_pos hvalid]
    rfl
  rw [hmake]
  exact ⟨rfl, rfl⟩

namespace Schedule

/-- Different fire times have different slots. -/
def SeparatesSlots (s : Schedule) : Prop :=
  ∀ f g : Instant, s.Fires f → s.Fires g → f ≠ g → s.slotOf f ≠ s.slotOf g

theorem slotOf_eq_iff {s : Schedule} {f g : Instant} :
    s.slotOf f = s.slotOf g ↔
      f.seconds - f.seconds % s.granularity.unitSeconds =
        g.seconds - g.seconds % s.granularity.unitSeconds := by
  obtain ⟨hf, hf'⟩ := s.granularity.truncate_parts f
  obtain ⟨hg, hg'⟩ := s.granularity.truncate_parts g
  constructor
  · intro h
    rw [← hf, ← hg]
    exact congrArg Instant.seconds h
  · intro h
    exact Instant.eq_of_parts (hf.trans (h.trans hg.symm)) (hf'.trans hg'.symm)

theorem slotOf_le (s : Schedule) {f g : Instant} (h : f ≤ g) : s.slotOf f ≤ s.slotOf g := by
  obtain ⟨hf, hf'⟩ := s.granularity.truncate_parts f
  obtain ⟨hg, hg'⟩ := s.granularity.truncate_parts g
  rw [Instant.le_iff] at h ⊢
  rw [slotOf, slotOf, hf, hf', hg, hg']
  cases s.granularity <;> simp only [Granularity.unitSeconds] <;> omega

theorem separatesSlots_of_second {s : Schedule} (h : s.granularity = .second) :
    s.SeparatesSlots := by
  intro f g hf hg hne hslot
  rw [slotOf_eq_iff, h] at hslot
  refine hne (Instant.eq_of_parts ?_ (hf.1.trans hg.1.symm))
  simp only [Granularity.unitSeconds] at hslot
  omega

theorem second_mem_of_fires {f : Fields} {second : Int} (h : f.Fires second) :
    (second % 60).toNat ∈ f.seconds := by
  have hmatch := h.2
  simp only [Fields.matchesTime, Bool.and_eq_true, List.contains_iff_mem] at hmatch
  have hpart : (second % 60).toNat = (second % 86400).toNat % 60 := by omega
  rw [hpart]
  exact hmatch.2

theorem fires_in_minute {f : Fields} {second : Int} {n : Nat} (h : f.Fires second)
    (hn : n ∈ f.seconds) (hle : n ≤ 59) : f.Fires (second - second % 60 + n) := by
  obtain ⟨hday, htime⟩ := h
  have hsame : (second - second % 60 + n) / 86400 = second / 86400 := by omega
  refine ⟨hsame ▸ hday, ?_⟩
  simp only [Fields.matchesTime, Bool.and_eq_true, List.contains_iff_mem] at htime ⊢
  have hhour : ((second - second % 60 + n) % 86400).toNat / 3600 =
      (second % 86400).toNat / 3600 := by omega
  have hminute : ((second - second % 60 + n) % 86400).toNat / 60 % 60 =
      (second % 86400).toNat / 60 % 60 := by omega
  have hsecond : ((second - second % 60 + n) % 86400).toNat % 60 = n := by omega
  rw [hhour, hminute, hsecond]
  exact ⟨htime.1, hn⟩

theorem separatesSlots_of_single {s : Schedule} (h : s.fields.seconds.length = 1) :
    s.SeparatesSlots := by
  obtain ⟨n, hn⟩ := List.length_eq_one_iff.mp h
  intro f g hf hg hne hslot
  have hf' := second_mem_of_fires hf.2
  have hg' := second_mem_of_fires hg.2
  rw [hn, List.mem_singleton] at hf' hg'
  refine hne (Instant.eq_of_parts ?_ (hf.1.trans hg.1.symm))
  rw [slotOf_eq_iff] at hslot
  cases hunit : s.granularity <;> simp only [hunit, Granularity.unitSeconds] at hslot <;> omega

theorem exists_other {l : List Nat} (hl : l.Pairwise (· < ·)) (hlen : l.length ≠ 1) {a : Nat}
    (ha : a ∈ l) : ∃ b ∈ l, b ≠ a := by
  match l, hlen with
  | b :: c :: rest, _ =>
      have hbc : b < c := List.rel_of_pairwise_cons hl List.mem_cons_self
      by_cases hb : b = a
      · exact ⟨c, List.mem_cons_of_mem b List.mem_cons_self, by omega⟩
      · exact ⟨b, List.mem_cons_self, hb⟩

/-- In minutes, a second selected second of a minute that fires is lost. -/
theorem not_separatesSlots {s : Schedule} (hs : s.fields.Ordered)
    (hminute : s.granularity = .minute) (hlen : s.fields.seconds.length ≠ 1) {t : Instant}
    (ht : s.Fires t) : ¬ s.SeparatesSlots := by
  intro hseparates
  have hmem := second_mem_of_fires ht.2
  obtain ⟨n, hn, hne⟩ := exists_other hs.seconds.ascending hlen hmem
  have hle : n ≤ 59 := (hs.seconds.within n hn).2
  have hvalid : Instant.Valid (t.seconds - t.seconds % 60 + n) 0 := by
    have := t.valid
    simp only [Instant.Valid, nanosPerSecond] at *
    omega
  refine hseparates t ⟨_, 0, hvalid⟩ ht ⟨rfl, fires_in_minute ht.2 hn hle⟩ ?_ ?_
  · intro heq
    have := congrArg Instant.seconds heq
    simp only at this
    omega
  · rw [slotOf_eq_iff, hminute]
    simp only [Granularity.unitSeconds]
    omega

end Schedule

/-! ## Numbers in front of a word -/

namespace Reader

/-- The first character of a word that goes on with the seconds. -/
def continues (c : Char) : Bool := c = ',' || c = '-' || c = '/'

variable {w tail : List Char} {c : Char}

theorem gap_of_solid (h : Text.isBlank c = false) : gap (c :: tail) = c :: tail := by
  refine List.dropWhile_cons_of_neg ?_
  rintro hgap
  simp only [Bool.or_eq_true, decide_eq_true_eq] at hgap
  rcases hgap with rfl | rfl <;> cases h

theorem isBlank_of_isDecimal (h : isDecimal c = true) : Text.isBlank c = false := by
  simp only [isDecimal, Bool.and_eq_true, decide_eq_true_eq] at h
  simp only [Text.isBlank, Bool.or_eq_false_iff, Bool.and_eq_false_iff, decide_eq_false_iff_not,
    beq_eq_false_iff_ne]
  omega

theorem word_isDecimal (hne : w ≠ []) (hw : ∀ x ∈ w, isDecimal x = true)
    (hc : Text.isBlank c = false) :
    word isDecimal (w ++ ' ' :: c :: tail) = some (w, c :: tail) := by
  obtain ⟨d, ds, rfl⟩ := List.exists_cons_of_ne_nil hne
  have hgap : gap (d :: ds ++ ' ' :: c :: tail) = d :: ds ++ ' ' :: c :: tail :=
    gap_of_solid (isBlank_of_isDecimal (hw d List.mem_cons_self))
  have htake : (d :: ds ++ ' ' :: c :: tail).takeWhile isDecimal = d :: ds :=
    takeWhile_isDecimal _ hw (by simp; decide)
  have hafter : gap (' ' :: c :: tail) = c :: tail := by
    rw [gap, List.dropWhile_cons_of_pos (by simp), ← gap, gap_of_solid hc]
  simp only [word, hgap, htake, List.drop_left, hafter]
  rfl

theorem name_number (hne : w ≠ []) (hw : ∀ x ∈ w, isDecimal x = true) :
    name (w ++ tail) = none := by
  obtain ⟨d, ds, rfl⟩ := List.exists_cons_of_ne_nil hne
  have hd := hw d List.mem_cons_self
  have hgap : gap (d :: ds ++ tail) = d :: ds ++ tail := gap_of_solid (isBlank_of_isDecimal hd)
  have halpha : d.isAlpha = false := by
    have hle : 48 ≤ d.toNat ∧ d.toNat ≤ 57 := by simpa [isDecimal] using hd
    simp only [Char.isAlpha, Char.isUpper, Char.isLower, Bool.or_eq_false_iff,
      Bool.and_eq_false_iff, decide_eq_false_iff_not, UInt32.le_iff_toNat_le]
    have : d.val.toNat = d.toNat := rfl
    simp
    omega
  have htake : (d :: ds ++ tail).takeWhile Char.isAlpha = [] :=
    List.takeWhile_cons_of_neg (by simp [halpha])
  simp only [name, word, hgap, htake, List.isEmpty_nil, if_true]

variable {cs : List Char} {n : Nat} {sel : Selector}

theorem selector_number (hstar : mark '*' cs = none) (hordinal : ordinal cs = some (n, tail))
    (hdash : mark '-' tail = none) : selector cs = some (.point n, tail) := by
  simp [selector, orElse, map, around, hstar, hordinal, hdash]

theorem selector_eq_none (hstar : mark '*' cs = none) (hordinal : ordinal cs = none)
    (hname : name cs = none) : selector cs = none := by
  simp [selector, orElse, map, around, hstar, hordinal, hname]

theorem entry_without_step {s : Reader Selector} (hs : s cs = some (sel, tail))
    (hslash : mark '/' tail = none) : entry s cs = some (⟨sel, none⟩, tail) := by
  simp [entry, orElse, map, around, hs, hslash]

theorem entry_eq_none {s : Reader Selector} (hs : s cs = none) (hname : name cs = none) :
    entry s cs = none := by
  simp [entry, orElse, map, around, hs, hname]

/-- The first entry is the number, unless the word after it goes on. -/
theorem entry_number (hne : w ≠ []) (hw : ∀ x ∈ w, isDecimal x = true)
    (hc : Text.isBlank c = false) (hends : continues c = false) {e : Entry} {rest : List Char}
    (h : entry selector (w ++ ' ' :: c :: tail) = some (e, rest)) :
    ∃ n, e = ⟨.point n, none⟩ ∧ rest = c :: tail := by
  simp only [continues, Bool.or_eq_false_iff, decide_eq_false_iff_not] at hends
  obtain ⟨⟨-, hdash⟩, hslash⟩ := hends
  have hstar : mark '*' (w ++ ' ' :: c :: tail) = none := by
    obtain ⟨d, ds, rfl⟩ := List.exists_cons_of_ne_nil hne
    have hd := hw d List.mem_cons_self
    exact if_neg fun heq => by subst heq; cases hd
  have hword : word isDecimal (w ++ ' ' :: c :: tail) = some (w, c :: tail) :=
    word_isDecimal hne hw hc
  by_cases hbound : value 10 w < UInt32.size
  · have hordinal : ordinal (w ++ ' ' :: c :: tail) = some (value 10 w, c :: tail) := by
      simp only [ordinal, hword, if_pos hbound]
    have hselector := selector_number hstar hordinal (if_neg (Ne.symm hdash))
    rw [entry_without_step hselector (if_neg (Ne.symm hslash))] at h
    obtain ⟨rfl, rfl⟩ := Prod.mk.inj (Option.some.inj h)
    exact ⟨_, rfl, rfl⟩
  · have hordinal : ordinal (w ++ ' ' :: c :: tail) = none := by
      simp only [ordinal, hword, if_neg hbound]
    have hname : name (w ++ ' ' :: c :: tail) = none := name_number hne hw
    rw [entry_eq_none (selector_eq_none hstar hordinal hname) hname] at h
    cases h

theorem field_number {f : Field} {values : List Nat} {rest : List Char} (hne : w ≠ [])
    (hw : ∀ x ∈ w, isDecimal x = true) (hc : Text.isBlank c = false) (hends : continues c = false)
    (h : field f selector (w ++ ' ' :: c :: tail) = some (values, rest)) :
    ∃ n, f.values? [⟨.point n, none⟩] = some values := by
  have hgap : gap (w ++ ' ' :: c :: tail) = w ++ ' ' :: c :: tail := by
    obtain ⟨d, ds, rfl⟩ := List.exists_cons_of_ne_nil hne
    exact gap_of_solid (isBlank_of_isDecimal (hw d List.mem_cons_self))
  obtain ⟨⟨e, after⟩, hentry, h⟩ := Option.bind_eq_some_iff.mp h
  obtain ⟨found, hvalues, h⟩ := Option.bind_eq_some_iff.mp h
  obtain ⟨rfl, -⟩ := Prod.mk.inj (Option.some.inj h)
  rw [hgap] at hentry
  obtain ⟨n, rfl, rfl⟩ := entry_number hne hw hc hends hentry
  have hcomma : mark ',' (c :: tail) = none := if_neg fun heq => by subst heq; cases hends
  have hfurther : (furtherEntries (entry selector) (c :: tail).length (c :: tail)).1 = [] := by
    rw [List.length_cons, furtherEntries, hcomma]
    rfl
  rw [hfurther] at hvalues
  exact ⟨n, hvalues⟩

end Reader

theorem eq_singleton {l : List Nat} (hl : l.Pairwise (· < ·)) {n : Nat}
    (hmem : ∀ a, a ∈ l ↔ a = n) : l = [n] := by
  match l with
  | [] => exact absurd ((hmem n).mpr rfl) List.not_mem_nil
  | [a] => rw [(hmem a).mp List.mem_cons_self]
  | a :: b :: rest =>
      have hab : a < b := List.rel_of_pairwise_cons hl List.mem_cons_self
      have ha := (hmem a).mp List.mem_cons_self
      have hb := (hmem b).mp (List.mem_cons_of_mem a List.mem_cons_self)
      omega

theorem Field.values?_point {f : Field} {n : Nat} {values : List Nat}
    (h : f.values? [⟨.point n, none⟩] = some values) : values = [n] := by
  have hascending := (Field.values?_lists h).ascending
  unfold values? at h
  obtain ⟨stretches, hread, h⟩ := Option.bind_eq_some_iff.mp h
  obtain rfl := Option.some.inj h
  simp only [List.mapM_cons, List.mapM_nil, Entry.stretch?, Selector.stretch?, between?] at hread
  split at hread
  · rename_i hfits
    obtain rfl := Option.some.inj hread
    simp only [admits, Bool.and_eq_true, decide_eq_true_eq] at hfits
    have hmem (a : Nat) : a ∈ (List.range (f.most + 1)).filter
        (fun a => [(⟨n, n, 1⟩ : Stretch)].any (·.covers a)) ↔ a = n := by
      simp only [List.mem_filter, List.mem_range, List.any_cons, List.any_nil, Bool.or_false,
        Stretch.covers, Bool.and_eq_true, decide_eq_true_eq, beq_iff_eq, Nat.mod_one, and_true]
      omega
    exact eq_singleton hascending hmem
  · cases hread

theorem Fields.read?_seconds {cs : List Char} {f : Fields} (h : Fields.read? cs = some f) :
    ∃ rest, Reader.field .seconds Reader.selector cs = some (f.seconds, rest) := by
  obtain ⟨⟨seconds, rest⟩, hseconds, h⟩ := Option.bind_eq_some_iff.mp h
  obtain ⟨⟨minutes, cs⟩, -, h⟩ := Option.bind_eq_some_iff.mp h
  obtain ⟨⟨hours, cs⟩, -, h⟩ := Option.bind_eq_some_iff.mp h
  obtain ⟨⟨daysOfMonth, cs⟩, -, h⟩ := Option.bind_eq_some_iff.mp h
  obtain ⟨⟨months, cs⟩, -, h⟩ := Option.bind_eq_some_iff.mp h
  obtain ⟨⟨daysOfWeek, cs⟩, -, h⟩ := Option.bind_eq_some_iff.mp h
  obtain ⟨⟨years, cs⟩, -, h⟩ := Option.bind_eq_some_iff.mp h
  dsimp only at h
  split at h
  · obtain rfl := Option.some.inj h
    exact ⟨rest, hseconds⟩
  · cases h

/-! ## Expressions -/

namespace Schedule

/-- The words of an expression, with a `0` in front of five. -/
def fieldWords (expression : String) : List (List Char) :=
  let ws := Text.words Text.isBlank expression.toList
  if ws.length = 5 then ['0'] :: ws else ws

/-- The second word goes on with what the first one began. -/
def secondsContinue (expression : String) : Bool :=
  ((fieldWords expression)[1]?.bind List.head?).any Reader.continues

theorem fieldWords_solid (expression : String) :
    ∀ w ∈ fieldWords expression, w ≠ [] ∧ ∀ c ∈ w, Text.isBlank c = false := by
  have hsolid := Text.words_solid Text.isBlank expression.toList
  unfold fieldWords
  dsimp only
  split
  · refine List.forall_mem_cons.mpr ⟨⟨List.cons_ne_nil _ _, fun c hc => ?_⟩, hsolid⟩
    obtain rfl := List.mem_singleton.mp hc
    rfl
  · exact hsolid

theorem parse_parts {expression : String} {s : Schedule} (h : parse expression = .ok s) :
    5 < (fieldWords expression).length ∧
      Fields.read? (joined (fieldWords expression)) = some s.fields ∧
      s.granularity =
        if ((fieldWords expression).head?.getD []).all isDecimal then .minute else .second := by
  unfold parse at h
  dsimp only at h
  split at h
  · cases h
  · rename_i ws hws
    have hwords : 5 < (fieldWords expression).length ∧ ws = fieldWords expression := by
      unfold fieldWords
      dsimp only
      split at hws
      · rename_i hlen
        obtain rfl := Option.some.inj hws
        simp [hlen]
      · rename_i hlen
        obtain rfl := Option.some.inj hws
        simp [hlen]
      · rename_i hlen
        obtain rfl := Option.some.inj hws
        simp [hlen]
      · cases hws
    obtain ⟨hlen, rfl⟩ := hwords
    split at h
    · cases h
    · rename_i fields hfields
      obtain rfl := Except.ok.inj h
      exact ⟨hlen, hfields, rfl⟩

theorem joined_cons (w : List Char) (w' : List Char) (ws : List (List Char)) :
    joined (w :: w' :: ws) = w ++ ' ' :: joined (w' :: ws) := by
  simp [joined, List.intercalate]

theorem joined_head {w : List Char} (ws : List (List Char)) {c : Char} {cs : List Char}
    (h : w = c :: cs) : ∃ tail, joined (w :: ws) = c :: tail := by
  subst h
  cases ws with
  | nil => exact ⟨_, rfl⟩
  | cons w' ws => exact ⟨_, joined_cons (c :: cs) w' ws⟩

/-- In minutes, the seconds are one number, unless the second word goes on with them. -/
theorem seconds_single {expression : String} {s : Schedule} (h : parse expression = .ok s)
    (hends : secondsContinue expression = false) (hminute : s.granularity = .minute) :
    s.fields.seconds.length = 1 := by
  obtain ⟨hlen, hfields, hgranularity⟩ := parse_parts h
  have hsolid := fieldWords_solid expression
  unfold secondsContinue at hends
  match hws : fieldWords expression with
  | [] | [_] => simp [hws] at hlen
  | w :: w' :: ws =>
      rw [hws] at hfields hgranularity hsolid hends
      have hdecimal : ∀ x ∈ w, isDecimal x = true := by
        rw [hminute] at hgranularity
        by_contra hno
        rw [if_neg (by simpa using hno)] at hgranularity
        cases hgranularity
      obtain ⟨hne, -⟩ := hsolid w List.mem_cons_self
      obtain ⟨hne', hblank⟩ := hsolid w' (List.mem_cons_of_mem w List.mem_cons_self)
      obtain ⟨c, cs, rfl⟩ := List.exists_cons_of_ne_nil hne'
      obtain ⟨tail, htail⟩ := joined_head ws (w := c :: cs) rfl
      have hc : Reader.continues c = false := hends
      rw [joined_cons, htail] at hfields
      obtain ⟨rest, hseconds⟩ := Fields.read?_seconds hfields
      obtain ⟨n, hn⟩ := Reader.field_number hne hdecimal (hblank c List.mem_cons_self) hc hseconds
      rw [Field.values?_point hn]
      rfl

/-- Slots keep fire times apart exactly when slots are seconds, one second is selected, or nothing
fires; this is so for every expression whose second word does not go on with the seconds. -/
theorem separatesSlots_iff {expression : String} {s : Schedule} (h : parse expression = .ok s) :
    (s.SeparatesSlots ↔
      s.granularity = .second ∨ s.fields.seconds.length = 1 ∨ ∀ t, ¬ s.Fires t) ∧
    (secondsContinue expression = false → s.SeparatesSlots) := by
  constructor
  · constructor
    · intro hseparates
      by_contra hno
      obtain ⟨hminute, hlen, hfires⟩ : s.granularity = .minute ∧ s.fields.seconds.length ≠ 1 ∧
          ∃ t, s.Fires t := by
        push Not at hno
        refine ⟨?_, hno.2⟩
        cases hg : s.granularity with
        | second => exact absurd hg hno.1
        | minute => rfl
      obtain ⟨t, ht⟩ := hfires
      exact not_separatesSlots (parse_ordered h) hminute hlen ht hseparates
    · rintro (hsecond | hsingle | hnone)
      · exact separatesSlots_of_second hsecond
      · exact separatesSlots_of_single hsingle
      · intro f g hf
        exact absurd hf (hnone f)
  · intro hends
    cases hg : s.granularity with
    | second => exact separatesSlots_of_second hg
    | minute => exact separatesSlots_of_single (seconds_single h hends hg)

theorem separatesSlots_weekdays :
    ∃ s, parse "0 30 9 * * Mon-Fri" = .ok s ∧ s.SeparatesSlots := by
  match h : parse "0 30 9 * * Mon-Fri" with
  | .error fault =>
      have hread : (parse "0 30 9 * * Mon-Fri").toOption.isSome = true := by decide +kernel
      rw [h] at hread
      cases hread
  | .ok s => exact ⟨s, rfl, (separatesSlots_iff h).2 (by decide +kernel)⟩

/-- A blank in front of a comma: seconds 0 and 30 are selected, and slots are minutes. -/
theorem not_separatesSlots_blank_comma :
    ¬ ∀ (expression : String) (s : Schedule), parse expression = .ok s → s.SeparatesSlots := by
  intro hall
  have hread : ((parse "0 ,30 * * * * *").toOption.map fun s =>
      (s.granularity, s.fields.seconds, decide (s.fields.Fires 0))) =
        some (.minute, [0, 30], true) := by decide +kernel
  match h : parse "0 ,30 * * * * *" with
  | .error fault =>
      rw [h] at hread
      cases hread
  | .ok s =>
      rw [h] at hread
      obtain ⟨hminute, hread⟩ := Prod.mk.inj (Option.some.inj hread)
      obtain ⟨hseconds, hfires⟩ := Prod.mk.inj hread
      have hlen : s.fields.seconds.length ≠ 1 := by
        rw [hseconds]
        decide
      exact not_separatesSlots (parse_ordered h) hminute hlen (t := .epoch)
        ⟨rfl, of_decide_eq_true hfires⟩ (hall _ s h)

end Schedule

end Cron

end WorkQueue
