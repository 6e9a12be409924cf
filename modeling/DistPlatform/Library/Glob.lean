import Mathlib.Computability.Language

/-!
# Wildcard patterns

A pattern is a list of symbols: a character for itself, a wildcard for one character and a
wildcard for any run of characters. A matcher that tries a literal before the wildcard reads a
narrower language: where the run meets a certain character it takes that character alone.

## Main definitions

* `Symbol`, `language` — patterns, and the texts they stand for.
* `Reads` — the texts that are read when a run takes a `stop` character alone.
* `TakesOne` — the symbols that read a character as exactly one.
-/

namespace DistPlatform.Glob

variable {α : Type*} {stop : α → Prop} {a c : α} {x w ts : List α}

inductive Symbol (α : Type*)
  | run
  | one
  | char (c : α)

def Symbol.language : Symbol α → Language α
  | .run => {_x | True}
  | .one => {x | x.length = 1}
  | .char c => {x | x = [c]}

/-- What the symbols stand for, one behind the other. -/
def language (ps : List (Symbol α)) : Language α := (ps.map Symbol.language).prod

variable {p : Symbol α} {ps cs : List (Symbol α)}

theorem mem_language_nil : x ∈ language ([] : List (Symbol α)) ↔ x = [] :=
  Language.mem_one x

theorem mem_language_cons :
    x ∈ language (p :: ps) ↔ ∃ a ∈ p.language, ∃ b ∈ language ps, a ++ b = x := by
  rw [language, List.map_cons, List.prod_cons]
  exact Language.mem_mul

/-! ## Readings -/

/-- The text is read from its front; a run that meets a `stop` takes it and nothing else. -/
def Reads (stop : α → Prop) : List (Symbol α) → List α → Prop
  | [], x => x = []
  | .one :: ps, x => ∃ a b, x = a :: b ∧ Reads stop ps b
  | .char c :: ps, x => ∃ b, x = c :: b ∧ Reads stop ps b
  | .run :: ps, x => (∃ a b, x = a :: b ∧ stop a ∧ Reads stop ps b) ∨
      ((∀ a ∈ x.head?, ¬ stop a) ∧ ∃ w b, x = w ++ b ∧ Reads stop ps b)

/-- The symbol reads the character, and that one only. -/
def TakesOne (stop : α → Prop) (a : α) : Symbol α → Prop
  | .run => stop a
  | .one => True
  | .char c => a = c

/-- A symbol that takes the first character alone leaves the rest to the symbols behind it. -/
theorem reads_cons_of_takesOne (h : TakesOne stop a p) :
    Reads stop (p :: ps) (a :: ts) ↔ Reads stop ps ts := by
  cases p with
  | one => simp [Reads]
  | char c =>
    obtain rfl : a = c := h
    simp [Reads]
  | run =>
    have hstop : stop a := h
    simp [Reads, hstop]

theorem not_reads_char_cons (h : a ≠ c) : ¬ Reads stop (.char c :: ps) (a :: ts) := by
  simp [Reads, h]

theorem not_reads_nil_cons : ¬ Reads stop [] (a :: ts) := by
  simp [Reads]

/-- Before anything but a `stop`, a run leaves any suffix to the symbols behind it. -/
theorem reads_run (h : ∀ a ∈ x.head?, ¬ stop a) :
    Reads stop (.run :: ps) x ↔ ∃ b, b <:+ x ∧ Reads stop ps b := by
  constructor
  · rintro (⟨a, b, rfl, hstop, -⟩ | ⟨-, w, b, rfl, hb⟩)
    · exact absurd hstop (h a rfl)
    · exact ⟨b, List.suffix_append w b, hb⟩
  · rintro ⟨b, ⟨w, rfl⟩, hb⟩
    exact .inr ⟨h, w, b, rfl, hb⟩

/-- What is left behind the first symbol is a suffix. -/
theorem exists_suffix_of_reads_run (h : Reads stop (.run :: ps) x) :
    ∃ b, b <:+ x ∧ Reads stop ps b := by
  obtain ⟨a, b, rfl, -, hb⟩ | ⟨-, w, b, rfl, hb⟩ := h
  · exact ⟨b, List.suffix_cons a b, hb⟩
  · exact ⟨b, List.suffix_append w b, hb⟩

/-- Symbols that have taken one character each do not decide anything any more. -/
theorem reads_append (h : List.Forall₂ (TakesOne stop) w cs) :
    Reads stop (cs ++ ps) (w ++ ts) ↔ Reads stop ps ts := by
  induction h with
  | nil => rfl
  | cons hone _ ih => exact (reads_cons_of_takesOne hone).trans ih

/-- A reading that begins later than one that takes a character a symbol is not ahead of it:
the symbols behind still read a suffix of what is left there. -/
theorem exists_suffix_of_reads (h : List.Forall₂ (TakesOne stop) w cs) (hx : x <:+ w ++ ts)
    (hreads : Reads stop (cs ++ ps) x) : ∃ b, b <:+ ts ∧ Reads stop ps b := by
  induction h generalizing x with
  | nil => exact ⟨x, hx, hreads⟩
  | @cons a p w cs hone _ ih =>
    have htail {b : List α} (hb : b <:+ x) (hne : b ≠ x) : b <:+ w ++ ts := by
      have hbx : b <:+ a :: (w ++ ts) := hb.trans hx
      obtain heq | hsuffix := List.suffix_cons_iff.mp hbx
      · exact absurd (hb.eq_of_length_le (heq ▸ hx.length_le)) hne
      · exact hsuffix
    cases p with
    | one =>
      obtain ⟨d, b, rfl, hb⟩ := hreads
      exact ih (htail (List.suffix_cons d b) (List.cons_ne_self d b).symm) hb
    | char c =>
      obtain ⟨b, rfl, hb⟩ := hreads
      exact ih (htail (List.suffix_cons c b) (List.cons_ne_self c b).symm) hb
    | run =>
      obtain ⟨d, b, rfl, -, hb⟩ | ⟨hhead, v, b, rfl, hb⟩ := hreads
      · exact ih (htail (List.suffix_cons d b) (List.cons_ne_self d b).symm) hb
      · -- the reading cannot begin with the stop that the run has taken
        obtain heq | hsuffix := List.suffix_cons_iff.mp hx
        · rw [heq] at hhead
          exact absurd hone (hhead a rfl)
        · exact ih ((List.suffix_append v b).trans hsuffix) hb

/-! ## Readings and the language -/

theorem mem_language_of_reads (h : Reads stop ps x) : x ∈ language ps := by
  induction ps generalizing x with
  | nil => exact mem_language_nil.mpr h
  | cons p ps ih =>
    rw [mem_language_cons]
    cases p with
    | one =>
      obtain ⟨a, b, rfl, hb⟩ := h
      exact ⟨[a], rfl, b, ih hb, rfl⟩
    | char c =>
      obtain ⟨b, rfl, hb⟩ := h
      exact ⟨[c], rfl, b, ih hb, rfl⟩
    | run =>
      obtain ⟨a, b, rfl, -, hb⟩ | ⟨-, w, b, rfl, hb⟩ := h
      · exact ⟨[a], trivial, b, ih hb, rfl⟩
      · exact ⟨w, trivial, b, ih hb, rfl⟩

theorem reads_of_mem_language (hstop : ∀ a ∈ x, ¬ stop a) (h : x ∈ language ps) :
    Reads stop ps x := by
  induction ps generalizing x with
  | nil => exact mem_language_nil.mp h
  | cons p ps ih =>
    obtain ⟨w, hw, b, hb, rfl⟩ := mem_language_cons.mp h
    have hb := ih (fun a ha => hstop a (List.mem_append_right w ha)) hb
    cases p with
    | one =>
      obtain ⟨a, rfl⟩ := List.length_eq_one_iff.mp hw
      exact ⟨a, b, rfl, hb⟩
    | char c =>
      obtain rfl : w = [c] := hw
      exact ⟨b, rfl, hb⟩
    | run => exact .inr ⟨fun a ha => hstop a (List.mem_of_mem_head? ha), w, b, rfl, hb⟩

/-- Wildcards for one character read the texts of their number. -/
theorem reads_replicate_one {n : Nat} :
    Reads stop (List.replicate n (.one : Symbol α)) x ↔ x.length = n := by
  induction n generalizing x with
  | zero => exact List.length_eq_zero_iff.symm
  | succ n ih =>
    cases x with
    | nil => simp [List.replicate_succ, Reads]
    | cons a x =>
      have hone : TakesOne stop a .one := trivial
      rw [List.replicate_succ, reads_cons_of_takesOne hone, ih, List.length_cons,
        Nat.add_right_cancel_iff]

theorem reads_replicate_one_append {w : List α} :
    Reads stop (List.replicate w.length .one ++ ps) (w ++ ts) ↔ Reads stop ps ts := by
  refine reads_append ?_
  induction w with
  | nil => exact .nil
  | cons a w ih => exact .cons trivial ih

/-- A run before a `stop` has to be empty for the symbols behind it to reach the end, and it
is not. -/
theorem exists_pattern_of_stop (stop : α → Prop) (hmem : c ∈ x) (hstop : stop c) :
    ∃ m n, x ∈ language (List.replicate m .one ++ .run :: List.replicate n .one) ∧
      ¬ Reads stop (List.replicate m .one ++ .run :: List.replicate n .one) x := by
  obtain ⟨u, v, rfl⟩ := List.append_of_mem hmem
  refine ⟨u.length, v.length + 1, ?_, ?_⟩
  · have hreads : Reads (fun _ => False)
        (List.replicate u.length .one ++ .run :: List.replicate (v.length + 1) .one)
        (u ++ c :: v) := by
      rw [reads_replicate_one_append, reads_run fun _ _ => not_false]
      exact ⟨c :: v, List.suffix_rfl, reads_replicate_one.mpr List.length_cons⟩
    exact mem_language_of_reads hreads
  · have hrun : TakesOne stop c .run := hstop
    rw [reads_replicate_one_append, reads_cons_of_takesOne hrun, reads_replicate_one]
    omega

end DistPlatform.Glob
