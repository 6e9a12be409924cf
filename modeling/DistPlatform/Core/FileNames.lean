import DistPlatform.Core.Roles

/-!
# File names of the repository (`dist_core.repository`)

Metadata is stored under its version and role, a payload under its digest. A fresh instance
reads versions back from the names, so writing and reading a name have to agree.

## Main definitions

* `filename`, `matchVersioned` — the name of a metadata file, and the pattern that reads it.
* `payloadPath` — where a payload is stored.
-/

namespace DistPlatform.Core

open DistPlatform

def filename (role : String) (version : Nat) : String :=
  if role = TIMESTAMP then "timestamp.json" else toString version ++ "." ++ role ++ ".json"

/-- `_VERSIONED.match` on the name of a file that `glob("*.json")` lists. The dot of a Python
pattern does not match a line feed. -/
def matchVersioned (name : String) : Option (Nat × String) :=
  let digits := name.toList.takeWhile Char.isDigit
  match name.toList.dropWhile Char.isDigit with
  | '.' :: rest =>
    let role := rest.take (rest.length - ".json".toList.length)
    if digits ≠ [] ∧ role ≠ [] ∧ '\n' ∉ role ∧ rest = role ++ ".json".toList then
      some (Nat.ofDigitChars 10 digits 0, String.ofList role)
    else none
  | _ => none

/-- What follows the last slash, and everything up to it: `rpartition("/")`. -/
def basename (path : String) : List Char := (path.toList.reverse.takeWhile (· ≠ '/')).reverse

def dirname (path : String) : List Char := (path.toList.reverse.dropWhile (· ≠ '/')).reverse

/-- `{dirname}{sep}{digest}.{basename}` -/
def payloadPath (targetPath digest : String) : String :=
  String.ofList (dirname targetPath ++ (digest.toList ++ '.' :: basename targetPath))

/-! ## Metadata names -/

theorem toList_filename {role : String} (h : role ≠ TIMESTAMP) (version : Nat) :
    (filename role version).toList =
      Nat.toDigits 10 version ++ '.' :: (role.toList ++ ".json".toList) := by
  rw [filename, if_neg h, Nat.toString_eq_ofList_toDigits]
  simp

theorem all_isDigit (version : Nat) : ∀ c ∈ Nat.toDigits 10 version, c.isDigit = true :=
  fun _ hc => Nat.isDigit_of_mem_toDigits (by decide) (by decide) hc

theorem takeWhile_filename {role : String} (h : role ≠ TIMESTAMP) (version : Nat) :
    (filename role version).toList.takeWhile Char.isDigit = Nat.toDigits 10 version := by
  rw [toList_filename h, List.takeWhile_append_of_pos (all_isDigit version)]
  simp

theorem dropWhile_filename {role : String} (h : role ≠ TIMESTAMP) (version : Nat) :
    (filename role version).toList.dropWhile Char.isDigit =
      '.' :: (role.toList ++ ".json".toList) := by
  rw [toList_filename h, List.dropWhile_append_of_pos (all_isDigit version)]
  simp

/-- The name of a versioned file says which version of which role it holds. -/
theorem filename_injective {role role' : String} {version version' : Nat} (h : role ≠ TIMESTAMP)
    (h' : role' ≠ TIMESTAMP) (heq : filename role version = filename role' version') :
    role = role' ∧ version = version' := by
  have hdigits := takeWhile_filename h version
  have hrest := dropWhile_filename h version
  rw [heq, takeWhile_filename h'] at hdigits
  rw [heq, dropWhile_filename h'] at hrest
  refine ⟨?_, ?_⟩
  · simpa [String.toList_inj] using hrest.symm
  · have := congrArg (Nat.ofDigitChars 10 · 0) hdigits
    simpa using this.symm

/-- The name of a role's file in a snapshot says which role it is of. -/
theorem snapshotFile_injective {role other : String} (h : role ++ ".json" = other ++ ".json") :
    role = other := by
  simpa [← String.toList_inj] using h

/-- A versioned file is not one of the two files without a version. -/
theorem filename_ne_alias {role : String} (h : role ≠ TIMESTAMP) (version : Nat) {name : String}
    (hname : name.toList.takeWhile Char.isDigit = []) : filename role version ≠ name := by
  rintro rfl
  rw [takeWhile_filename h] at hname
  exact Nat.toDigits_ne_nil hname

theorem filename_ne_timestamp {role : String} (h : role ≠ TIMESTAMP) (version : Nat) :
    filename role version ≠ "timestamp.json" :=
  filename_ne_alias h version (by decide)

theorem filename_ne_root {role : String} (version : Nat) : filename role version ≠ "root.json" := by
  by_cases h : role = TIMESTAMP
  · have hname : filename role version = "timestamp.json" := if_pos h
    rw [hname]
    decide
  · exact filename_ne_alias h version (by decide)

/-- The pattern reads back what `filename` writes, for a role without a line feed. -/
theorem matchVersioned_filename {role : String} (h : role ≠ TIMESTAMP) (hne : role ≠ "")
    (hline : '\n' ∉ role.toList) (version : Nat) :
    matchVersioned (filename role version) = some (version, role) := by
  have hrole : role.toList ≠ [] := by simpa using hne
  simp only [matchVersioned, takeWhile_filename h, dropWhile_filename h, List.length_append,
    Nat.add_sub_cancel, List.take_left']
  simp [hline, Nat.toDigits_ne_nil, hne]

theorem matchVersioned_root : matchVersioned "root.json" = none := by decide

theorem matchVersioned_timestamp : matchVersioned "timestamp.json" = none := by decide

/-- Whatever the pattern reads of such a name is what was written. -/
theorem eq_of_matchVersioned {role role' : String} {version version' : Nat}
    (h : matchVersioned (filename role version) = some (version', role')) :
    role' = role ∧ version' = version := by
  have hne : role ≠ TIMESTAMP := by
    rintro rfl
    rw [show filename TIMESTAMP version = "timestamp.json" from if_pos rfl,
      matchVersioned_timestamp] at h
    cases h
  simp only [matchVersioned, takeWhile_filename hne, dropWhile_filename hne, List.length_append,
    Nat.add_sub_cancel, List.take_left'] at h
  split at h
  · obtain ⟨hversion, hrole⟩ := Prod.mk.inj (Option.some.inj h)
    exact ⟨by rw [← hrole, String.ofList_toList], by rw [← hversion]; simp⟩
  · cases h

/-- The dot of the pattern stops at a line feed: the file is not seen. -/
example : matchVersioned (filename "app-editor\n" 1) = none := by decide

/-! ## Payload names -/

theorem takeWhile_dropWhile_slash (cs : List Char) :
    (cs.dropWhile (· ≠ '/')).takeWhile (· ≠ '/') = [] := by
  rw [List.takeWhile_eq_nil_iff]
  intro hlen
  have := List.dropWhile_get_zero_not (fun c => decide (c ≠ '/')) cs hlen
  simpa using this

theorem slash_not_mem_basename (path : String) : '/' ∉ basename path := by
  intro hmem
  simpa using List.mem_takeWhile_imp (List.mem_reverse.mp hmem)

theorem basename_payloadPath {path digest : String} (h : '/' ∉ digest.toList) :
    basename (payloadPath path digest) = digest.toList ++ '.' :: basename path := by
  have hpiece : ∀ c ∈ (digest.toList ++ '.' :: basename path).reverse, decide (c ≠ '/') := by
    intro c hc
    rw [List.mem_reverse, List.mem_append, List.mem_cons] at hc
    rw [decide_eq_true_iff]
    rintro rfl
    obtain hc | hc | hc := hc
    · exact h hc
    · exact absurd hc (by decide)
    · exact slash_not_mem_basename path hc
  rw [basename, payloadPath, String.toList_ofList, List.reverse_append, dirname,
    List.reverse_reverse, List.takeWhile_append_of_pos hpiece, takeWhile_dropWhile_slash,
    List.append_nil, List.reverse_reverse]

theorem dirname_append_basename (path : String) : dirname path ++ basename path = path.toList := by
  rw [dirname, basename, ← List.reverse_append, List.takeWhile_append_dropWhile,
    List.reverse_reverse]

/-- Under one digest, the place of a payload names its path. -/
theorem path_of_payloadPath {path path' digest : String} (h : '/' ∉ digest.toList)
    (heq : payloadPath path digest = payloadPath path' digest) : path = path' := by
  have hpieces := congrArg basename heq
  rw [basename_payloadPath h, basename_payloadPath h, List.append_cancel_left_eq,
    List.cons.injEq] at hpieces
  have hwhole := congrArg String.toList heq
  rw [payloadPath, payloadPath, String.toList_ofList, String.toList_ofList, hpieces.2,
    List.append_cancel_right_eq] at hwhole
  rw [← String.toList_inj, ← dirname_append_basename path, ← dirname_append_basename path',
    hpieces.2, hwhole]

/-- The place of a payload names its digest. -/
theorem digest_of_payloadPath {path path' digest digest' : String}
    (h : ∀ c ∈ digest.toList, c ≠ '/' ∧ c ≠ '.') (h' : ∀ c ∈ digest'.toList, c ≠ '/' ∧ c ≠ '.')
    (heq : payloadPath path digest = payloadPath path' digest') : digest = digest' := by
  have hslash {digest : String} (h : ∀ c ∈ digest.toList, c ≠ '/' ∧ c ≠ '.') :
      '/' ∉ digest.toList := fun hc => (h _ hc).1 rfl
  have hpieces := congrArg basename heq
  rw [basename_payloadPath (hslash h), basename_payloadPath (hslash h')] at hpieces
  have hdigest {digest : String} (h : ∀ c ∈ digest.toList, c ≠ '/' ∧ c ≠ '.')
      (rest : List Char) :
      (digest.toList ++ '.' :: rest).takeWhile (· ≠ '.') = digest.toList := by
    rw [List.takeWhile_append_of_pos fun c hc => by simpa using (h c hc).2]
    simp
  have hsame := congrArg (List.takeWhile (· ≠ '.')) hpieces
  rw [hdigest h, hdigest h'] at hsame
  exact String.toList_inj.mp hsame

end DistPlatform.Core
