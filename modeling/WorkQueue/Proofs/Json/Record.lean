import Mathlib
import WorkQueue.Proofs.Json.RoundTrip

/-! # Reading written records

The fields of a record are found under their names, if no two names are the same. What is written
for a value and taken back from it is the value of one field, and so records are built from parts
that read back.
-/

namespace WorkQueue.Json

/-- What is written for a value has a text, is no `null`, and is read as the value. -/
structure Faithful {α : Type} (write : α → Json) (read : Json → Option α) (a : α) : Prop where
  plain : (write a).plain = true
  filled : write a ≠ .null
  reads : read (write a) = some a

section

variable {α : Type} {write : α → Json} {read : Json → Option α} {a : α}

theorem Faithful.parse (h : Faithful write read a) :
    (parse? (write a).render).bind read = some a := by
  rw [parse?_render h.plain, Option.bind_some, h.reads]

theorem Faithful.required (h : Faithful write read a) :
    required? read (some (write a)) = some a := h.reads

theorem Faithful.nullable (h : ∀ a, Faithful write read a) (o : Option α) :
    nullable? read (some (ofOption write o)) = some o := by
  cases o with
  | none => rfl
  | some a =>
      simp only [nullable?, optional?, ofOption]
      split
      · exact absurd (by assumption) (h a).filled
      · rw [(h a).reads, Option.map_some]

theorem Faithful.plain_ofOption (h : ∀ a, Faithful write read a) (o : Option α) :
    (ofOption write o).plain = true := by
  cases o with
  | none => rfl
  | some a => exact (h a).plain

end

/-! ## Values of fields -/

theorem text_faithful (s : String) : Faithful text text? s :=
  ⟨rfl, by simp [text], rfl⟩

theorem Faithful.ofText {α : Type} {shown : α → String} {read : String → Option α} {a : α}
    (h : read (shown a) = some a) :
    Faithful (fun a => text (shown a)) (fun j => j.text?.bind read) a :=
  ⟨rfl, by simp [text], h⟩

theorem bool_faithful (b : Bool) : Faithful .bool bool? b :=
  ⟨rfl, by simp, rfl⟩

theorem intWithin?_integer {least most n : Int} (h : least ≤ n ∧ n ≤ most) :
    (Json.integer n).intWithin? least most = some n := by
  simp [intWithin?, h]

theorem nat_faithful {n most : Nat} (h : n ≤ most) : Faithful nat (natUpTo? most) n where
  plain := rfl
  filled := by simp [nat]
  reads := by simp [nat, natUpTo?, intWithin?, h]

/-! ## Records -/

variable {members : List (String × Json)}

theorem plain_record (h : ∀ m ∈ members, m.2.plain = true) : (record members).plain = true := by
  simp only [record, plain]
  induction members with
  | nil => rfl
  | cons m members ih =>
      simp only [List.map_cons, plainMembers, Option.isSome_some, Bool.true_and, Bool.and_eq_true]
      exact ⟨h m List.mem_cons_self, ih fun m' hm => h m' (List.mem_cons_of_mem m hm)⟩

theorem record_texts (h : ∀ m ∈ members, ∃ s, m.2 = text s) :
    (record members).depth = 1 ∧ (record members).finite = true ∧
      (record members).spelled = true := by
  simp only [record, depth, finite, spelled]
  induction members with
  | nil => simp [membersDepth, finiteMembers, spelledMembers]
  | cons m members ih =>
      obtain ⟨s, hs⟩ := h m List.mem_cons_self
      have hrest := ih fun m' hm => h m' (List.mem_cons_of_mem m hm)
      simpa [membersDepth, finiteMembers, spelledMembers, hs, text, depth, finite, spelled]
        using hrest

theorem filter_name (hnames : (members.map (·.1)).Nodup) {m : String × Json} (hm : m ∈ members) :
    (members.map fun m => (some m.1, m.2)).filter (·.1 = some m.1) = [(some m.1, m.2)] := by
  induction members with
  | nil => cases hm
  | cons first rest ih =>
      obtain ⟨hfresh, hrest⟩ := List.nodup_cons.mp hnames
      rcases List.mem_cons.mp hm with rfl | hm
      · have hothers : (rest.map fun m => (some m.1, m.2)).filter (·.1 = some m.1) = [] := by
          simp only [List.filter_eq_nil_iff, List.forall_mem_map, decide_eq_true_eq,
            Option.some.injEq]
          intro other hother heq
          exact hfresh (List.mem_map.mpr ⟨other, hother, heq⟩)
        simp [hothers]
      · have hne : first.1 ≠ m.1 := fun heq => hfresh (List.mem_map.mpr ⟨m, hm, heq.symm⟩)
        simp [hne, ih hrest hm]

theorem single?_record (hnames : (members.map (·.1)).Nodup) {m : String × Json}
    (hm : m ∈ members) : single? (members.map fun m => (some m.1, m.2)) m.1 = some (some m.2) := by
  rw [single?, filter_name hnames hm]

theorem filter_other {name : String} (h : ∀ m ∈ members, m.1 ≠ name) :
    (members.map fun m => (some m.1, m.2)).filter (·.1 ≠ some name) =
      members.map fun m => (some m.1, m.2) := by
  rw [List.filter_eq_self, List.forall_mem_map]
  intro m hm
  simp [h m hm]

theorem fields?_record (hnames : (members.map (·.1)).Nodup) :
    (record members).fields? (members.map (·.1)) = some (members.map fun m => some m.2) := by
  have hkeys : (members.map fun m => (some m.1, m.2)).all (fun m => m.1.isSome) = true := by simp
  simp only [record, fields?, hkeys, if_true, List.mapM_map]
  exact mapM_eq_some fun m hm => single?_record hnames hm

end WorkQueue.Json
