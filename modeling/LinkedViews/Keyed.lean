/-! Finite maps as lists of entries with distinct keys, in the order in which the keys first came.
The view of a map is `find?`; each operation has its law on it. -/
namespace LinkedViews

structure Keyed (κ : Type) (α : Type) where
  entries : List (κ × α)
  nodup : (entries.map Prod.fst).Nodup

namespace Keyed

variable {κ α : Type} [DecidableEq κ]

def empty : Keyed κ α := ⟨[], by simp⟩

instance : Inhabited (Keyed κ α) := ⟨empty⟩

def findIn (key : κ) : List (κ × α) → Option α
  | [] => none
  | (k, v) :: rest => if k = key then some v else findIn key rest

def find? (m : Keyed κ α) (key : κ) : Option α := findIn key m.entries

def contains (m : Keyed κ α) (key : κ) : Bool := (m.find? key).isSome

def size (m : Keyed κ α) : Nat := m.entries.length

def putIn (key : κ) (value : α) : List (κ × α) → List (κ × α)
  | [] => [(key, value)]
  | (k, v) :: rest => if k = key then (key, value) :: rest else (k, v) :: putIn key value rest

def eraseIn (key : κ) : List (κ × α) → List (κ × α)
  | [] => []
  | (k, v) :: rest => if k = key then eraseIn key rest else (k, v) :: eraseIn key rest

theorem mem_keys_putIn {key k : κ} {value : α} {entries : List (κ × α)} :
    k ∈ (putIn key value entries).map Prod.fst ↔ k = key ∨ k ∈ entries.map Prod.fst := by
  induction entries with
  | nil => simp [putIn]
  | cons e rest ih =>
    simp only [putIn]
    split
    next same => simp [← same]
    next => rw [List.map_cons, List.mem_cons, ih]; simp; grind

theorem nodup_putIn {key : κ} {value : α} {entries : List (κ × α)}
    (h : (entries.map Prod.fst).Nodup) : ((putIn key value entries).map Prod.fst).Nodup := by
  induction entries with
  | nil => simp [putIn]
  | cons e rest ih =>
    simp only [List.map_cons, List.nodup_cons] at h
    simp only [putIn]
    split
    next same => subst same; simpa using h
    next differ =>
      rw [List.map_cons, List.nodup_cons, mem_keys_putIn]
      exact ⟨fun hmem => hmem.elim differ h.1, ih h.2⟩

theorem mem_keys_eraseIn {key k : κ} {entries : List (κ × α)} :
    k ∈ (eraseIn key entries).map Prod.fst ↔ k ≠ key ∧ k ∈ entries.map Prod.fst := by
  induction entries with
  | nil => simp [eraseIn]
  | cons e rest ih =>
    simp only [eraseIn]
    split
    next same => rw [ih, List.map_cons, List.mem_cons, ← same]; grind
    next => rw [List.map_cons, List.mem_cons, ih, List.map_cons, List.mem_cons]; grind

theorem nodup_eraseIn {key : κ} {entries : List (κ × α)}
    (h : (entries.map Prod.fst).Nodup) : ((eraseIn key entries).map Prod.fst).Nodup := by
  induction entries with
  | nil => simp [eraseIn]
  | cons e rest ih =>
    simp only [List.map_cons, List.nodup_cons] at h
    simp only [eraseIn]
    split
    next => exact ih h.2
    next =>
      rw [List.map_cons, List.nodup_cons, mem_keys_eraseIn]
      exact ⟨fun hmem => h.1 hmem.2, ih h.2⟩

/-- The value under a key, new or in place of the one before. -/
def put (m : Keyed κ α) (key : κ) (value : α) : Keyed κ α :=
  ⟨putIn key value m.entries, nodup_putIn m.nodup⟩

def erase (m : Keyed κ α) (key : κ) : Keyed κ α :=
  ⟨eraseIn key m.entries, nodup_eraseIn m.nodup⟩

@[simp] theorem find?_empty (key : κ) : (empty : Keyed κ α).find? key = none := rfl

theorem find?_put (m : Keyed κ α) (key k : κ) (value : α) :
    (m.put key value).find? k = if key = k then some value else m.find? k := by
  simp only [find?, put]
  induction m.entries with
  | nil => simp [putIn, findIn]
  | cons e rest ih => simp only [putIn, findIn]; split <;> simp only [findIn] <;> grind

@[simp] theorem find?_put_self (m : Keyed κ α) (key : κ) (value : α) :
    (m.put key value).find? key = some value := by simp [find?_put]

theorem find?_put_of_ne (m : Keyed κ α) {key k : κ} (value : α) (h : key ≠ k) :
    (m.put key value).find? k = m.find? k := by simp [find?_put, h]

theorem find?_erase (m : Keyed κ α) (key k : κ) :
    (m.erase key).find? k = if key = k then none else m.find? k := by
  simp only [find?, erase]
  induction m.entries with
  | nil => simp [eraseIn, findIn]
  | cons e rest ih => simp only [eraseIn, findIn]; split <;> grind [findIn]

theorem mem_iff_findIn {key : κ} {value : α} {entries : List (κ × α)}
    (nodup : (entries.map Prod.fst).Nodup) :
    (key, value) ∈ entries ↔ findIn key entries = some value := by
  induction entries with
  | nil => simp [findIn]
  | cons e rest ih =>
    simp only [List.map_cons, List.nodup_cons] at nodup
    simp only [findIn, List.mem_cons]
    split
    next same =>
      have absent : (key, value) ∉ rest := fun h => nodup.1 (same ▸ List.mem_map_of_mem h)
      simp only [absent, or_false, Option.some.injEq]
      exact ⟨fun h => h ▸ rfl, fun h => by rw [← same, ← h]⟩
    next differ =>
      have other : (key, value) ≠ e := fun h => differ (h ▸ rfl)
      simp only [other, false_or]
      exact ih nodup.2

/-- Keys are distinct, so the entries are what looking up finds. -/
theorem mem_entries_iff (m : Keyed κ α) (key : κ) (value : α) :
    (key, value) ∈ m.entries ↔ m.find? key = some value :=
  mem_iff_findIn m.nodup

end Keyed

end LinkedViews
