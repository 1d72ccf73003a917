import WorkQueue.Text.Bytes

/-! # Headers

An insertion-ordered map from keys to bytes. A replaced key keeps its place.
-/

namespace WorkQueue

structure Headers where
  entries : List (String × Bytes)
  deriving Repr, DecidableEq, Inhabited

namespace Headers

def empty : Headers := ⟨[]⟩

/-- Replace the value of the first entry with a key, or add an entry at the end. -/
def put (key : String) (value : Bytes) : List (String × Bytes) → List (String × Bytes)
  | [] => [(key, value)]
  | (k, v) :: rest => if k = key then (k, value) :: rest else (k, v) :: put key value rest

/-- Drop the first entry with a key. -/
def drop (key : String) : List (String × Bytes) → List (String × Bytes)
  | [] => []
  | (k, v) :: rest => if k = key then rest else (k, v) :: drop key rest

def get? (h : Headers) (key : String) : Option Bytes :=
  (h.entries.find? (·.1 = key)).map (·.2)

/-- The value of a key as text. -/
def getText? (h : Headers) (key : String) : Option String :=
  (h.get? key).bind Bytes.text?

/-- Insert or replace a value. -/
def set (h : Headers) (key : String) (value : Bytes) : Headers :=
  ⟨put key value h.entries⟩

def setText (h : Headers) (key value : String) : Headers :=
  h.set key (Bytes.ofText value)

/-- Insert or replace a value, with the value that was replaced. -/
def insert (h : Headers) (key : String) (value : Bytes) : Option Bytes × Headers :=
  match h.entries.findIdx? (·.1 = key) with
  | some i => (h.entries[i]?.map (·.2), ⟨h.entries.modify i fun e => (e.1, value)⟩)
  | none => (none, ⟨h.entries ++ [(key, value)]⟩)

def erase (h : Headers) (key : String) : Headers :=
  ⟨drop key h.entries⟩

/-- Remove a key, with the value that was taken out. -/
def remove (h : Headers) (key : String) : Option Bytes × Headers :=
  match h.entries.findIdx? (·.1 = key) with
  | some i => (h.entries[i]?.map (·.2), ⟨h.entries.eraseIdx i⟩)
  | none => (none, h)

def ofList (entries : List (String × Bytes)) : Headers :=
  entries.foldl (fun h e => h.set e.1 e.2) empty

def toList (h : Headers) : List (String × Bytes) := h.entries

def size (h : Headers) : Nat := h.entries.length

/-! ## Looking up what was set -/

theorem find?_put_self (key : String) (value : Bytes) (entries : List (String × Bytes)) :
    (put key value entries).find? (·.1 = key) = some (key, value) := by
  induction entries with
  | nil => simp [put]
  | cons e rest ih =>
    by_cases h : e.1 = key
    · simp [put, h]
    · simp [put, h, ih]

theorem find?_put_of_ne {key other : String} (h : other ≠ key) (value : Bytes)
    (entries : List (String × Bytes)) :
    (put key value entries).find? (·.1 = other) = entries.find? (·.1 = other) := by
  induction entries with
  | nil => simp [put, h.symm]
  | cons e rest ih =>
    by_cases he : e.1 = key
    · simp [put, he, h.symm]
    · simp [put, he, List.find?_cons, ih]

theorem get?_set_self (h : Headers) (key : String) (value : Bytes) :
    (h.set key value).get? key = some value := by
  simp [get?, set, find?_put_self]

theorem get?_set_of_ne (h : Headers) {key other : String} (hne : other ≠ key) (value : Bytes) :
    (h.set key value).get? other = h.get? other := by
  simp [get?, set, find?_put_of_ne hne]

/-! ## Positions -/

theorem get?_eq_getElem? (h : Headers) (key : String) :
    h.get? key = ((h.entries.findIdx? (·.1 = key)).bind (h.entries[·]?)).map (·.2) := by
  rw [get?, List.find?_eq_bind_findIdx?_getElem?]

theorem put_of_findIdx? {key : String} {entries : List (String × Bytes)} (value : Bytes) {i : Nat}
    (h : entries.findIdx? (·.1 = key) = some i) :
    put key value entries = entries.modify i fun e => (e.1, value) := by
  induction entries generalizing i with
  | nil => cases h
  | cons e rest ih =>
    by_cases he : e.1 = key
    · obtain rfl : 0 = i := by simpa [List.findIdx?_cons, he] using h
      simp [put, he]
    · obtain ⟨j, hj, rfl⟩ : ∃ j, rest.findIdx? (·.1 = key) = some j ∧ j + 1 = i := by
        simpa [List.findIdx?_cons, he] using h
      simp [put, he, ih hj]

theorem put_of_forall_ne {key : String} {entries : List (String × Bytes)} (value : Bytes)
    (h : ∀ e ∈ entries, e.1 ≠ key) : put key value entries = entries ++ [(key, value)] := by
  induction entries with
  | nil => rfl
  | cons e rest ih =>
    have he := h e List.mem_cons_self
    simp [put, he, ih fun e' h' => h e' (List.mem_cons_of_mem e h')]

theorem drop_eq_eraseP (key : String) (entries : List (String × Bytes)) :
    drop key entries = entries.eraseP (·.1 = key) := by
  induction entries with
  | nil => rfl
  | cons e rest ih => by_cases he : e.1 = key <;> simp [drop, he, ih]

theorem insert_eq (h : Headers) (key : String) (value : Bytes) :
    h.insert key value = (h.get? key, h.set key value) := by
  rw [insert, get?_eq_getElem?, set]
  cases hi : h.entries.findIdx? (·.1 = key) with
  | some i => rw [put_of_findIdx? value hi, Option.bind_some]
  | none =>
    have hne : ∀ e ∈ h.entries, e.1 ≠ key := by simpa using hi
    rw [put_of_forall_ne value hne, Option.bind_none, Option.map_none]

theorem remove_eq (h : Headers) (key : String) :
    h.remove key = (h.get? key, h.erase key) := by
  rw [remove, get?_eq_getElem?, erase, drop_eq_eraseP, List.eraseP_eq_eraseIdx]
  cases h.entries.findIdx? (·.1 = key) with
  | some i => rw [Option.bind_some]
  | none => rfl

end Headers

end WorkQueue
