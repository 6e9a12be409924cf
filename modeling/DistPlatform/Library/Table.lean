import Mathlib.Data.List.Nodup

/-!
# Finite tables

A table is a list of rows, each under a key: a directory by file name, a database table by
id. Putting a row replaces the one under its key. The row goes to the front, where a Python dict
keeps the key's place, so the order of the rows is not the order of a dict.

## Main definitions

* `Table.get`, `Table.put`, `Table.erase` — read, replace and remove the row of a key.
-/

namespace DistPlatform

abbrev Table (κ ν : Type) := List (κ × ν)

namespace Table

variable {κ ν : Type} [DecidableEq κ]

def get (t : Table κ ν) (k : κ) : Option ν := t.lookup k

def erase (t : Table κ ν) (k : κ) : Table κ ν := t.filter (·.1 ≠ k)

def put (t : Table κ ν) (k : κ) (v : ν) : Table κ ν := (k, v) :: t.erase k

@[simp] theorem get_nil (k : κ) : get ([] : Table κ ν) k = none := rfl

@[simp] theorem get_erase_self (t : Table κ ν) (k : κ) : (t.erase k).get k = none := by
  rw [get, List.lookup_eq_none_iff]
  intro row hrow
  have := (List.mem_filter.mp hrow).2
  simp only [decide_eq_true_eq] at this
  simpa [beq_eq_false_iff_ne] using fun h => this h.symm

theorem get_erase_of_ne (t : Table κ ν) {k l : κ} (h : l ≠ k) :
    (t.erase k).get l = t.get l := by
  induction t with
  | nil => rfl
  | cons row t ih =>
    obtain ⟨a, v⟩ := row
    by_cases ha : a = k
    · have hl : (l == a) = false := by simpa [ha] using h
      simp only [get, erase, List.lookup_cons, hl] at ih ⊢
      simpa [List.filter_cons, ha] using ih
    · simp only [get, erase, List.filter_cons, ne_eq, ha, not_false_eq_true,
        decide_true, if_true, List.lookup_cons] at ih ⊢
      cases l == a
      · exact ih
      · rfl

theorem get_erase (t : Table κ ν) (k l : κ) :
    (t.erase k).get l = if l = k then none else t.get l := by
  split
  next h => exact h ▸ get_erase_self t k
  next h => exact get_erase_of_ne t h

theorem get_put (t : Table κ ν) (k l : κ) (v : ν) :
    (t.put k v).get l = if l = k then some v else t.get l := by
  split
  next h =>
    subst h
    simp [get, put]
  next h =>
    have hl : (l == k) = false := by simpa using h
    rw [get, put, List.lookup_cons, hl]
    exact get_erase_of_ne t h

@[simp] theorem get_put_self (t : Table κ ν) (k : κ) (v : ν) : (t.put k v).get k = some v := by
  simp [get_put]

theorem get_put_of_ne (t : Table κ ν) {k l : κ} (v : ν) (h : l ≠ k) :
    (t.put k v).get l = t.get l := by
  simp [get_put, h]

theorem get_foldl_put (f : κ → ν) (keys : List κ) (t : Table κ ν) (k : κ) :
    (keys.foldl (fun t k => t.put k (f k)) t).get k = if k ∈ keys then some (f k) else t.get k := by
  induction keys generalizing t with
  | nil => rfl
  | cons first keys ih =>
    rw [List.foldl_cons, ih, get_put]
    by_cases hmem : k ∈ keys
    · rw [if_pos hmem, if_pos (List.mem_cons_of_mem _ hmem)]
    · by_cases heq : k = first
      · subst heq
        rw [if_neg hmem, if_pos rfl, if_pos List.mem_cons_self]
      · rw [if_neg hmem, if_neg heq, if_neg (by simp [hmem, heq])]

theorem mem_of_get {t : Table κ ν} {k : κ} {v : ν} (h : t.get k = some v) : (k, v) ∈ t := by
  obtain ⟨l₁, l₂, hl, -⟩ := List.lookup_eq_some_iff.mp h
  simp [hl]

theorem get_isSome_of_mem {t : Table κ ν} {k : κ} {v : ν} (h : (k, v) ∈ t) :
    (t.get k).isSome := by
  rw [Option.isSome_iff_ne_none, get, ne_eq, List.lookup_eq_none_iff]
  intro hnone
  simpa using hnone (k, v) h

theorem isSome_get {t : Table κ ν} {k : κ} : (t.get k).isSome ↔ k ∈ t.map (·.1) := by
  constructor
  · intro h
    obtain ⟨v, hv⟩ := Option.isSome_iff_exists.mp h
    exact List.mem_map.mpr ⟨_, mem_of_get hv, rfl⟩
  · intro h
    obtain ⟨⟨_, v⟩, hmem, rfl⟩ := List.mem_map.mp h
    exact get_isSome_of_mem hmem

theorem erase_of_get_none {t : Table κ ν} {k : κ} (h : t.get k = none) : t.erase k = t := by
  rw [erase, List.filter_eq_self]
  rintro ⟨l, v⟩ hrow
  rw [decide_eq_true_eq]
  rintro rfl
  simpa [h] using get_isSome_of_mem hrow

theorem erase_erase (t : Table κ ν) (k : κ) : (t.erase k).erase k = t.erase k := by
  simp [erase]

theorem erase_put (t : Table κ ν) (k : κ) (v : ν) : (t.put k v).erase k = t.erase k := by
  rw [put, erase, List.filter_cons_of_neg (by simp)]
  exact erase_erase t k

theorem put_put (t : Table κ ν) (k : κ) (v w : ν) : (t.put k v).put k w = t.put k w := by
  rw [put, erase_put, ← put]

/-- A table whose keys are distinct gives back every row. -/
theorem get_of_mem {t : Table κ ν} (hnodup : (t.map (·.1)).Nodup) {k : κ} {v : ν}
    (h : (k, v) ∈ t) : t.get k = some v := by
  obtain ⟨w, hw⟩ := Option.isSome_iff_exists.mp (get_isSome_of_mem h)
  have := List.inj_on_of_nodup_map hnodup h (mem_of_get hw) rfl
  rw [hw, (Prod.mk.inj this).2]

theorem nodup_put {t : Table κ ν} (hnodup : (t.map (·.1)).Nodup) (k : κ) (v : ν) :
    ((t.put k v).map (·.1)).Nodup := by
  rw [put, List.map_cons, List.nodup_cons]
  refine ⟨fun hmem => ?_, hnodup.sublist (List.Sublist.map _ List.filter_sublist)⟩
  obtain ⟨row, hrow, hkey⟩ := List.mem_map.mp hmem
  simpa [hkey] using (List.mem_filter.mp hrow).2

end Table

end DistPlatform
