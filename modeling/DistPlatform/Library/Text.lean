import Mathlib.Data.List.Basic
import Mathlib.Data.List.Infix
import Mathlib.Data.List.TakeWhile

/-!
# Text as the sources handle it

Both languages of the platform treat a string as a sequence of characters, cut it at
separators and match it against anchored regular expressions. The operations here are
stated over character lists, with the facts about cutting that the naming rules rest on.

## Main definitions

* `Text.segments` — the pieces of a string between its slashes.
* `Text.endsAnchored` — Python's `$`, which also matches before a final line feed.
-/

namespace DistPlatform.Text

/-- `raw.split('/')`: the pieces between slashes, empty pieces included. -/
def segments (s : String) : List (List Char) := s.toList.splitOn '/'

/-- `s.startswith(p)`. -/
def startsWith (s p : String) : Bool := p.toList.isPrefixOf s.toList

/-- The part of a path before its first slash. -/
def firstSegment (s : String) : List Char := s.toList.takeWhile (· ≠ '/')

/-- Python's `{s!r}`, for text that needs no escape. -/
def quoted (s : String) : String := "'" ++ s ++ "'"

/-- A pattern that ends in Python's `$`: the match ends at the end of the text or just
before a line feed that ends it. -/
def endsAnchored (p : List Char → Bool) (s : List Char) : Bool :=
  p s || (s.getLast? == some '\n' && p s.dropLast)

/-- A question about every character of a text is asked of those characters alone. -/
instance decidableForallMem {P : Char → Prop} [DecidablePred P] (text : List Char) :
    Decidable (∀ c ∈ text, P c) :=
  List.decidableBAll P text

instance lawfulBEqChars : LawfulBEq (List Char) := inferInstance

theorem startsWith_iff {s p : String} : startsWith s p = true ↔ p.toList <+: s.toList := by
  simp [startsWith]

theorem segments_ne_nil (s : String) : segments s ≠ [] := List.splitOn_ne_nil _ _

theorem splitOn_append_slash (a : List Char) (rest : List Char) (h : '/' ∉ a) :
    (a ++ '/' :: rest).splitOn '/' = a :: rest.splitOn '/' :=
  List.splitOn_append_cons_self_of_not_mem h _

theorem firstSegment_append_slash (a rest : List Char) (h : '/' ∉ a) :
    (a ++ '/' :: rest).takeWhile (· ≠ '/') = a := by
  rw [List.takeWhile_append_of_pos (by grind)]
  simp

/-- Every piece of a cut is made of characters of the text. -/
theorem mem_of_mem_splitOn {sep c : Char} {cs piece : List Char} (hp : piece ∈ cs.splitOn sep)
    (hc : c ∈ piece) : c ∈ cs := by
  induction hn : cs.length using Nat.strong_induction_on generalizing cs with
  | _ n ih =>
    by_cases h : sep ∈ cs
    · obtain ⟨a, b, rfl, ha⟩ := List.eq_append_cons_of_mem h
      rw [List.splitOn_append_cons_self_of_not_mem ha] at hp
      rcases List.mem_cons.mp hp with rfl | hp
      · simp [hc]
      · have := ih b.length (by simp at hn; omega) hp rfl
        simp [this]
    · rw [List.splitOn_eq_singleton h, List.mem_singleton] at hp
      exact hp ▸ hc

/-- A character of a text stands in a piece of its cut, or is a separator. -/
theorem exists_piece_of_mem {sep c : Char} {cs : List Char} (hc : c ∈ cs) (hne : c ≠ sep) :
    ∃ piece ∈ cs.splitOn sep, c ∈ piece := by
  induction hn : cs.length using Nat.strong_induction_on generalizing cs with
  | _ n ih =>
    by_cases h : sep ∈ cs
    · obtain ⟨a, b, rfl, ha⟩ := List.eq_append_cons_of_mem h
      rw [List.splitOn_append_cons_self_of_not_mem ha]
      rcases List.mem_append.mp hc with hca | hcb
      · exact ⟨a, by simp, hca⟩
      · have hcb := (List.mem_cons.mp hcb).resolve_left hne
        obtain ⟨piece, hpiece, hmem⟩ := ih b.length (by simp at hn; omega) hcb rfl
        exact ⟨piece, List.mem_cons_of_mem _ hpiece, hmem⟩
    · exact ⟨cs, by simp [List.splitOn_eq_singleton h], hc⟩

/-- The first piece of a cut is everything before the first slash. -/
theorem head?_segments (s : String) : (segments s).head? = some (firstSegment s) := by
  unfold segments firstSegment
  generalize s.toList = cs
  by_cases h : '/' ∈ cs
  · obtain ⟨a, b, rfl, ha⟩ := List.eq_append_cons_of_mem h
    rw [splitOn_append_slash a b ha, firstSegment_append_slash a b ha]
    rfl
  · rw [List.splitOn_eq_singleton h, List.takeWhile_eq_self_iff.mpr (by grind)]
    rfl

/-! ## Anchored patterns -/

theorem endsAnchored_of_no_newline {p : List Char → Bool} {s : List Char}
    (h : s.getLast? ≠ some '\n') : endsAnchored p s = p s := by
  simp [endsAnchored, h]

theorem endsAnchored_iff {p : List Char → Bool} {s : List Char} :
    endsAnchored p s = true ↔ p s = true ∨ ∃ body, s = body ++ ['\n'] ∧ p body = true := by
  rw [endsAnchored, Bool.or_eq_true, Bool.and_eq_true, beq_iff_eq]
  refine or_congr_right ⟨?_, ?_⟩
  · rintro ⟨hlast, hp⟩
    exact ⟨s.dropLast, (List.dropLast_append_getLast? '\n' hlast).symm, hp⟩
  · rintro ⟨body, rfl, hp⟩
    simpa using hp

/-- What holds of every character of a match holds of every character of the text, the line
feed at its end apart. -/
theorem endsAnchored_chars {p : List Char → Bool} {P : Char → Prop} {s : List Char}
    (hchars : ∀ cs, p cs = true → ∀ c ∈ cs, P c) (h : endsAnchored p s = true) :
    ∀ c ∈ s, P c ∨ c = '\n' := by
  obtain hwhole | ⟨body, rfl, hbody⟩ := endsAnchored_iff.mp h
  · exact fun c hc => .inl (hchars s hwhole c hc)
  · intro c hc
    obtain hc | hc := List.mem_append.mp hc
    · exact .inl (hchars body hbody c hc)
    · exact .inr (List.mem_singleton.mp hc)

/-! ## Joining at a separator -/

/-- Two texts joined at a separator are equal when their parts are, or when the separator
stands inside a part: one left part runs past the other. -/
theorem append_cons_eq_iff {sep : Char} {a b c d : List Char} :
    a ++ sep :: b = c ++ sep :: d ↔
      (a = c ∧ b = d) ∨ (∃ m, a = c ++ sep :: m ∧ d = m ++ sep :: b) ∨
        ∃ m, c = a ++ sep :: m ∧ b = m ++ sep :: d := by
  constructor
  · intro h
    obtain ⟨m, hc, hb⟩ | ⟨m, ha, hd⟩ := List.append_eq_append_iff.mp h
    · cases m with
      | nil => exact .inl ⟨by simpa using hc.symm, by simpa using hb⟩
      | cons x m =>
        obtain ⟨rfl, rfl⟩ := List.cons_eq_cons.mp hb
        exact .inr (.inr ⟨m, hc, rfl⟩)
    · cases m with
      | nil => exact .inl ⟨by simpa using ha, by simpa using hd.symm⟩
      | cons x m =>
        obtain ⟨rfl, rfl⟩ := List.cons_eq_cons.mp hd
        exact .inr (.inl ⟨m, ha, rfl⟩)
  · rintro (⟨rfl, rfl⟩ | ⟨m, rfl, rfl⟩ | ⟨m, rfl, rfl⟩) <;> simp

theorem append_cons_inj_right {sep : Char} {a b c d : List Char} (hb : sep ∉ b) (hd : sep ∉ d) :
    a ++ sep :: b = c ++ sep :: d ↔ a = c ∧ b = d := by
  rw [append_cons_eq_iff]
  constructor
  · rintro (h | ⟨m, -, rfl⟩ | ⟨m, -, rfl⟩)
    · exact h
    · exact absurd (by simp) hd
    · exact absurd (by simp) hb
  · exact .inl

theorem append_cons_inj {sep : Char} {a b c d : List Char} (ha : sep ∉ a) (hc : sep ∉ c) :
    a ++ sep :: b = c ++ sep :: d ↔ a = c ∧ b = d := by
  rw [append_cons_eq_iff]
  constructor
  · rintro (h | ⟨m, rfl, -⟩ | ⟨m, rfl, -⟩)
    · exact h
    · exact absurd (by simp) ha
    · exact absurd (by simp) hc
  · exact .inl

end DistPlatform.Text
