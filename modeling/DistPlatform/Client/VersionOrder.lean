import Mathlib.Data.List.Lex
import DistPlatform.Library.Digits

/-!
# Comparing versions (`dist_client.update.is_newer`)

A version is cut at its dots; the pieces that `isdigit` lets through are read by `int`, and the
first that it does not let through ends the reading. What `isdigit` lets through is more than
what `int` reads, and there the comparison raises.

## Main definitions

* `parts`, `isNewer` — the function.
* `versionOf`, `Newer` — what a version means, and when one is newer than another.
* `Readable` — the texts on which no conversion raises.
-/

namespace DistPlatform.Client

open Digits

/-! ## The function -/

/-- The loop of `parts`, with what it has appended so far. -/
def appendParts (out : List Nat) : List (List Char) → Except ValueError (Option (List Nat))
  | [] => .ok (some out)
  | segment :: rest =>
    if !isdigit segment then .ok none
    else do
      let n ← int segment
      appendParts (out ++ [n]) rest

def parts (value : String) : Except ValueError (Option (List Nat)) :=
  appendParts [] (value.toList.splitOn '.')

/-- `is_newer`. Both versions are read before either is looked at. -/
def isNewer (candidate installed : String) : Except ValueError Bool := do
  let left ← parts candidate
  let right ← parts installed
  match left, right with
  | some left, some right => return decide (right < left)
  | _, _ => return false

/-! ## What it is for -/

/-- The numbers between the dots of a text, where each piece is a numeral. -/
def versionOf (value : String) : Option (List Nat) := (value.toList.splitOn '.').mapM numeral

/-- Both texts are versions, and the candidate's numbers come later in the lexicographic
order, in which a list comes after its prefixes. -/
def Newer (candidate installed : String) : Prop :=
  ∃ left right, versionOf candidate = some left ∧ versionOf installed = some right ∧ right < left

/-- The comparison answers, and says what it is for. -/
def Compares (candidate installed : String) : Prop :=
  ∃ answer, isNewer candidate installed = .ok answer ∧
    (answer = true ↔ Newer candidate installed)

/-- On the texts it reads, the comparison is a strict order, total up to equal numbers. -/
structure OrdersParsed : Prop where
  irrefl : ∀ a l, parts a = .ok (some l) → isNewer a a = .ok false
  trans : ∀ a b c, isNewer a b = .ok true → isNewer b c = .ok true → isNewer a c = .ok true
  total : ∀ a b l r, parts a = .ok (some l) → parts b = .ok (some r) →
    l = r ∨ isNewer a b = .ok true ∨ isNewer b a = .ok true

/-- Of the pieces before the first that is not all digits, each is one that `int` reads. -/
def Readable (value : String) : Prop :=
  ∀ segment ∈ (value.toList.splitOn '.').takeWhile isdigit, Whole segment

instance {value : String} : Decidable (Readable value) :=
  inferInstanceAs (Decidable (∀ _ ∈ _, _))

/-! ## Reading a version -/

/-- The loop ends without raising exactly when `int` reads each piece that it reaches, and
then it has the numerals. -/
theorem appendParts_eq_ok {segments : List (List Char)} {out : List Nat}
    {result : Option (List Nat)} :
    appendParts out segments = .ok result ↔
      (∀ segment ∈ segments.takeWhile isdigit, Whole segment) ∧
        result = (segments.mapM numeral).map (out ++ ·) := by
  induction segments generalizing out with
  | nil => simp [appendParts, eq_comm]
  | cons segment rest ih =>
    rw [appendParts, List.mapM_cons]
    by_cases hdigit : isdigit segment = true
    · simp only [hdigit, Bool.not_true, Bool.false_eq_true, if_false, Fallible.bind_eq_ok,
        int_eq_ok, ih, List.takeWhile_cons_of_pos, List.forall_mem_cons]
      constructor
      · rintro ⟨n, ⟨hwhole, hn⟩, hrest, rfl⟩
        refine ⟨⟨hwhole, hrest⟩, ?_⟩
        rw [hn]
        cases rest.mapM numeral <;> simp
      · rintro ⟨⟨hwhole, hrest⟩, rfl⟩
        obtain ⟨n, hn⟩ := exists_numeral hdigit hwhole
        refine ⟨n, ⟨hwhole, hn⟩, hrest, ?_⟩
        rw [hn]
        cases rest.mapM numeral <;> simp
    · have hnone : numeral segment = none := by
        by_contra h
        obtain ⟨n, hn⟩ := Option.ne_none_iff_exists'.mp h
        exact hdigit (isdigit_of_numeral hn)
      simp [hdigit, hnone, eq_comm]

theorem parts_eq_ok {value : String} {result : Option (List Nat)} :
    parts value = .ok result ↔ Readable value ∧ result = versionOf value := by
  rw [parts, appendParts_eq_ok, Readable, versionOf]
  simp

theorem parts_of_readable {value : String} (h : Readable value) :
    parts value = .ok (versionOf value) := parts_eq_ok.mpr ⟨h, rfl⟩

/-- On readable texts the comparison answers, and the answer is the order of the numbers. -/
theorem isNewer_of_readable {candidate installed : String} (hleft : Readable candidate)
    (hright : Readable installed) :
    ∃ answer, isNewer candidate installed = .ok answer ∧
      (answer = true ↔ Newer candidate installed) := by
  unfold isNewer Newer
  rw [parts_of_readable hleft, parts_of_readable hright]
  cases versionOf candidate with
  | none => exact ⟨false, rfl, by simp⟩
  | some left =>
    cases versionOf installed with
    | none => exact ⟨false, rfl, by simp⟩
    | some right => exact ⟨decide (right < left), rfl, by simp⟩

theorem readable_of_isNewer {candidate installed : String} {answer : Bool}
    (h : isNewer candidate installed = .ok answer) : Readable candidate ∧ Readable installed := by
  simp only [isNewer, Fallible.bind_eq_ok, parts_eq_ok] at h
  obtain ⟨left, ⟨hleft, -⟩, right, ⟨hright, -⟩, -⟩ := h
  exact ⟨hleft, hright⟩

/-- The comparison answers exactly when both texts are readable, and the answer is the
order of their numbers. -/
theorem isNewer_eq_ok {candidate installed : String} {answer : Bool} :
    isNewer candidate installed = .ok answer ↔
      Readable candidate ∧ Readable installed ∧ (answer = true ↔ Newer candidate installed) := by
  constructor
  · intro h
    obtain ⟨hleft, hright⟩ := readable_of_isNewer h
    obtain ⟨answer', h', hnewer⟩ := isNewer_of_readable hleft hright
    obtain rfl : answer = answer' := Except.ok.inj (h.symm.trans h')
    exact ⟨hleft, hright, hnewer⟩
  · rintro ⟨hleft, hright, hnewer⟩
    obtain ⟨answer', h, hnewer'⟩ := isNewer_of_readable hleft hright
    rw [h, Bool.eq_iff_iff.mpr (hnewer.trans hnewer'.symm)]

theorem isNewer_eq_true {candidate installed : String} :
    isNewer candidate installed = .ok true ↔
      ∃ left right, parts candidate = .ok (some left) ∧ parts installed = .ok (some right) ∧
        right < left := by
  simp only [isNewer_eq_ok, parts_eq_ok, Newer, true_iff]
  constructor
  · rintro ⟨hleft, hright, left, right, hcandidate, hinstalled, hlt⟩
    exact ⟨left, right, ⟨hleft, hcandidate.symm⟩, ⟨hright, hinstalled.symm⟩, hlt⟩
  · rintro ⟨left, right, ⟨hleft, hcandidate⟩, ⟨hright, hinstalled⟩, hlt⟩
    exact ⟨hleft, hright, left, right, hcandidate.symm, hinstalled.symm, hlt⟩

/-! ## The order -/

/-- The order of the versions comes from the order of their numbers. -/
theorem ordersParsed : OrdersParsed where
  irrefl a l hl := by
    obtain ⟨hread, hversion⟩ := parts_eq_ok.mp hl
    refine isNewer_eq_ok.mpr ⟨hread, hread, ?_⟩
    simp [Newer, ← hversion]
  trans a b c hab hbc := by
    obtain ⟨l, m, hl, hm, hml⟩ := isNewer_eq_true.mp hab
    obtain ⟨m', n, hm', hn, hnm⟩ := isNewer_eq_true.mp hbc
    obtain rfl : m = m' := by simpa [hm] using hm'
    exact isNewer_eq_true.mpr ⟨l, n, hl, hn, hnm.trans hml⟩
  total a b l r hl hr := by
    rcases lt_trichotomy l r with hlt | heq | hgt
    · exact .inr (.inr (isNewer_eq_true.mpr ⟨r, l, hr, hl, hlt⟩))
    · exact .inl heq
    · exact .inr (.inl (isNewer_eq_true.mpr ⟨l, r, hl, hr, hgt⟩))

/-- The comparison does what it is for on the readable texts and on no others, and orders what
it reads. -/
theorem compares_iff (candidate installed : String) :
    (Compares candidate installed ↔ Readable candidate ∧ Readable installed) ∧
      OrdersParsed := by
  refine ⟨?_, ordersParsed⟩
  simp only [Compares, isNewer_eq_ok]
  constructor
  · rintro ⟨answer, ⟨hleft, hright, -⟩, -⟩
    exact ⟨hleft, hright⟩
  · rintro ⟨hleft, hright⟩
    classical
    exact ⟨decide (Newer candidate installed), ⟨hleft, hright, by simp⟩, by simp⟩

/-- A superscript passes for a digit, and is no numeral. -/
theorem superscript_raises : ¬ Compares "1.4.²" "1.4.1" := by
  rintro ⟨answer, h, -⟩
  exact absurd (readable_of_isNewer h).1 (by decide +kernel)

end DistPlatform.Client
