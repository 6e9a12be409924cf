import DistPlatform.Library.Fallible
import DistPlatform.Library.Glob
import DistPlatform.Tuf.TargetPath

/-!
# What `glob_segment` matches

The matcher keeps the last `*` of the pattern only, and tries the equal character before it. The
earlier ones can be forgotten: whatever they could still take, the text behind the last one is
read from a suffix all the same. A `*` of the text is another matter, as the pattern's `*` is
equal to it and takes it alone.

## Main definitions

* `symbolOf`, `segmentLanguage` — the pattern's characters, and the texts they stand for.
* `Remembered` — the invariant of the loop, about the last `*`.
* `Accepts` — what the loop still decides.
* `GlobCorrect` — a text is matched exactly when the pattern stands for it.
-/

namespace DistPlatform.Tuf

open Glob

/-- `*` stands for any run of characters, `?` for one, any other character for itself. -/
def symbolOf (p : Char) : Symbol Char :=
  if p = '?' then .one else if p = '*' then .run else .char p

def segmentLanguage (pattern : List Char) : Language Char := language (pattern.map symbolOf)

/-- The text is read where every `*` of the pattern that meets a `*` takes it alone. -/
def SegmentReads (pattern text : List Char) : Prop := Reads (· = '*') (pattern.map symbolOf) text

variable {text pattern ts ps : List Char} {t p : Char}
  {star : Option (List Char × List Char)}

/-- The first branch of the loop passes over one character. -/
theorem takesOne_symbolOf (h : (p == '?' || p == t) = true) :
    TakesOne (· = '*') t (symbolOf p) := by
  simp only [Bool.or_eq_true, beq_iff_eq] at h
  unfold symbolOf
  split
  · trivial
  next hone =>
    obtain rfl := h.resolve_left hone
    split
    next hrun => exact hrun
    · rfl

theorem segmentReads_cons (h : (p == '?' || p == t) = true) :
    SegmentReads (p :: ps) (t :: ts) ↔ SegmentReads ps ts :=
  reads_cons_of_takesOne (takesOne_symbolOf h)

theorem not_segmentReads_cons (h : ¬ (p == '?' || p == t) = true) (hrun : ¬ (p == '*') = true) :
    ¬ SegmentReads (p :: ps) (t :: ts) := by
  simp only [Bool.or_eq_true, beq_iff_eq, not_or] at h hrun
  rw [SegmentReads, List.map_cons, symbolOf, if_neg h.1, if_neg hrun]
  exact not_reads_char_cons (Ne.symm h.2)

theorem segmentReads_nil : SegmentReads ps [] ↔ (ps.dropWhile (· == '*')).isEmpty = true := by
  induction ps with
  | nil => simp [SegmentReads, Reads]
  | cons p ps ih =>
    by_cases hrun : p = '*'
    · subst hrun
      have hempty : SegmentReads ('*' :: ps) [] ↔ ∃ b, b <:+ [] ∧ SegmentReads ps b :=
        reads_run (by simp)
      simp [hempty, ih]
    · have hlit : (p == '*') = false := beq_false_of_ne hrun
      rw [List.dropWhile_cons, hlit, SegmentReads, List.map_cons, symbolOf, if_neg hrun]
      split <;> simp [Reads]

/-! ## The loop -/

/-- What stands between the remembered `*` and the rest of the pattern has taken the text read
since, character by character. -/
def Remembered (ps : List Char) : Option (List Char × List Char) → Prop
  | none => True
  | some (after, seen) => ∃ cs, after = cs ++ ps ∧
      List.Forall₂ (TakesOne (· = '*')) seen.reverse (cs.map symbolOf)

/-- The rest of the text is read, or, since a `*`, a suffix of what has been read since then
and of the rest. -/
def Accepts (ts ps : List Char) : Option (List Char × List Char) → Prop
  | none => SegmentReads ps ts
  | some (after, seen) => ∃ b, b <:+ seen.reverse ++ ts ∧ SegmentReads after b

/-- A `*` has just been met: nothing stands behind it that has taken anything. -/
theorem remembered_star : Remembered ps (some (ps, [])) :=
  ⟨[], rfl, .nil⟩

theorem remembered_cons {after seen : List Char} (h : (p == '?' || p == t) = true)
    (hrem : Remembered (p :: ps) (some (after, seen))) :
    Remembered ps (some (after, t :: seen)) := by
  obtain ⟨cs, rfl, htaken⟩ := hrem
  refine ⟨cs ++ [p], by simp, ?_⟩
  rw [List.reverse_cons, List.map_append]
  exact List.rel_append htaken (.cons (takesOne_symbolOf h) .nil)

/-- The text from the remembered `*` on is read if the rest of it is. -/
theorem segmentReads_append {after seen : List Char}
    (hrem : Remembered ps (some (after, seen))) :
    SegmentReads after (seen.reverse ++ ts) ↔ SegmentReads ps ts := by
  obtain ⟨cs, rfl, htaken⟩ := hrem
  rw [SegmentReads, List.map_append]
  exact reads_append htaken

/-- What the remembered `*` still allows, the rest of the pattern allows behind the text that has
been read. -/
theorem exists_suffix_of_accepts {after seen : List Char}
    (hrem : Remembered ps (some (after, seen))) (h : Accepts ts ps (some (after, seen))) :
    ∃ b, b <:+ ts ∧ SegmentReads ps b := by
  obtain ⟨cs, rfl, htaken⟩ := hrem
  obtain ⟨x, hx, hreads⟩ := h
  rw [SegmentReads, List.map_append] at hreads
  exact exists_suffix_of_reads htaken hx hreads

/-- The remembered `*` takes one character more, as nothing is read from where it stands. -/
theorem accepts_backtrack {after seen : List Char} (hrem : Remembered ps (some (after, seen)))
    (hstuck : ¬ SegmentReads ps (t :: ts)) :
    Accepts (seen.reverse ++ t :: ts).tail after (some (after, [])) ↔
      Accepts (t :: ts) ps (some (after, seen)) := by
  have hhere : ¬ SegmentReads after (seen.reverse ++ t :: ts) :=
    fun h => hstuck ((segmentReads_append hrem).mp h)
  have hcons : ∃ a rest, seen.reverse ++ t :: ts = a :: rest :=
    List.exists_cons_of_ne_nil (by simp)
  obtain ⟨a, rest, hwhole⟩ := hcons
  simp only [Accepts, hwhole, List.tail_cons, List.reverse_nil, List.nil_append,
    List.suffix_cons_iff]
  rw [hwhole] at hhere
  constructor
  · rintro ⟨b, hb, hreads⟩
    exact ⟨b, .inr hb, hreads⟩
  · rintro ⟨b, rfl | hb, hreads⟩
    · exact absurd hreads hhere
    · exact ⟨b, hb, hreads⟩

/-- A `*` that meets another character leaves any suffix of the text to the pattern behind it. -/
theorem segmentReads_star (h : ¬ ('*' == t) = true) :
    SegmentReads ('*' :: ps) (t :: ts) ↔ Accepts (t :: ts) ps (some (ps, [])) := by
  refine reads_run ?_
  rintro a ha rfl
  exact h (by simpa using (Option.some.inj ha).symm)

/-- Where the text ends, stars alone can be left of the pattern. -/
theorem accepts_nil (hrem : Remembered ps star) :
    Accepts [] ps star ↔ (ps.dropWhile (· == '*')).isEmpty = true := by
  rw [← segmentReads_nil]
  cases star with
  | none => rfl
  | some found =>
    obtain ⟨after, seen⟩ := found
    constructor
    · intro h
      obtain ⟨b, hb, hreads⟩ := exists_suffix_of_accepts hrem h
      rwa [List.suffix_nil.mp hb] at hreads
    · intro h
      exact ⟨_, List.suffix_rfl, (segmentReads_append hrem).mpr h⟩

/-- A later `*` replaces the one remembered, and nothing is lost. -/
theorem accepts_star {after seen : List Char} (h : ¬ ('*' == t) = true)
    (hrem : Remembered ('*' :: ps) (some (after, seen))) :
    Accepts (t :: ts) ps (some (ps, [])) ↔ Accepts (t :: ts) ('*' :: ps) (some (after, seen)) := by
  constructor
  · intro hlater
    have hrest := (segmentReads_star h).mpr hlater
    exact ⟨_, List.suffix_rfl, (segmentReads_append hrem).mpr hrest⟩
  · intro hearlier
    obtain ⟨x, hx, hreads⟩ := exists_suffix_of_accepts hrem hearlier
    obtain ⟨b, hb, hreads⟩ := exists_suffix_of_reads_run hreads
    exact ⟨b, hb.trans hx, hreads⟩

/-- One pass of the loop keeps what is decided, and the invariant, in each of its branches. -/
theorem globLoop_iff (hrem : Remembered ps star) :
    globLoop ts ps star = true ↔ Accepts ts ps star := by
  fun_induction globLoop ts ps star with
  | case1 star ps => exact (accepts_nil hrem).symm
  | case2 t ts p ps hsame ih => exact (ih trivial).trans (segmentReads_cons hsame).symm
  | case3 t ts p ps hother hrun ih =>
    obtain rfl := eq_of_beq hrun
    have hmeets : ¬ ('*' == t) = true := fun heq => hother (Bool.or_eq_true_iff.mpr (.inr heq))
    exact (ih remembered_star).trans (segmentReads_star hmeets).symm
  | case4 t ts p ps hother hrun =>
    exact iff_of_false Bool.false_ne_true (not_segmentReads_cons hother hrun)
  | case5 t ts =>
    have hnil : ¬ SegmentReads [] (t :: ts) := not_reads_nil_cons
    exact iff_of_false Bool.false_ne_true hnil
  | case6 t ts p ps after seen hsame ih =>
    rw [ih (remembered_cons hsame hrem), Accepts, Accepts, List.reverse_cons, List.append_assoc,
      List.singleton_append]
  | case7 t ts p ps after seen hother hrun ih =>
    obtain rfl := eq_of_beq hrun
    have hmeets : ¬ ('*' == t) = true := fun heq => hother (Bool.or_eq_true_iff.mpr (.inr heq))
    exact (ih remembered_star).trans (accepts_star hmeets hrem)
  | case8 t ts p ps after seen hother hrun ih =>
    have hseen : seen.attach.reverse.unattach = seen.reverse := by simp
    rw [hseen] at ih
    have hstuck : ¬ SegmentReads (p :: ps) (t :: ts) := not_segmentReads_cons hother hrun
    exact (ih remembered_star).trans (accepts_backtrack hrem hstuck)
  | case9 t ts after seen ih =>
    have hseen : seen.attach.reverse.unattach = seen.reverse := by simp
    rw [hseen] at ih
    have hstuck : ¬ SegmentReads [] (t :: ts) := not_reads_nil_cons
    exact (ih remembered_star).trans (accepts_backtrack hrem hstuck)

theorem globSegment_iff : globSegment text pattern = true ↔ SegmentReads pattern text :=
  globLoop_iff trivial

/-! ## What is matched -/

def GlobCorrect (text pattern : List Char) : Prop :=
  globSegment text pattern = true ↔ text ∈ segmentLanguage pattern

theorem globCorrect_iff : GlobCorrect text pattern ↔
    (text ∈ segmentLanguage pattern → SegmentReads pattern text) := by
  rw [GlobCorrect, globSegment_iff]
  exact ⟨Iff.mpr, fun h => ⟨mem_language_of_reads, h⟩⟩

theorem globCorrect_of_notMem (h : '*' ∉ text) : GlobCorrect text pattern := by
  rw [globCorrect_iff]
  exact reads_of_mem_language fun t ht => by
    rintro rfl
    exact h ht

/-- A text with no `*` of its own is matched by the single wildcard. -/
theorem globSegment_star (h : '*' ∉ text) : globSegment text ['*'] = true := by
  refine (globCorrect_of_notMem h).mpr ?_
  exact mem_language_cons.mpr ⟨text, trivial, [], mem_language_nil.mpr rfl, List.append_nil _⟩

/-- A pattern without wildcards matches itself only, whatever the text contains. -/
theorem globSegment_literal (h : ∀ c ∈ pattern, c ≠ '*' ∧ c ≠ '?') :
    globSegment text pattern = true ↔ text = pattern := by
  rw [globSegment_iff]
  induction pattern generalizing text with
  | nil => rfl
  | cons p ps ih =>
    obtain ⟨hrun, hone⟩ := h p List.mem_cons_self
    have hps (x : List Char) : SegmentReads ps x ↔ x = ps :=
      ih fun c hc => h c (List.mem_cons_of_mem p hc)
    rw [SegmentReads, List.map_cons, symbolOf, if_neg hone, if_neg hrun]
    change (∃ b, text = p :: b ∧ SegmentReads ps b) ↔ _
    simp [hps]

/-- A pattern that a text with a `*` is in the language of and is not matched by. -/
theorem exists_not_globCorrect (h : '*' ∈ text) : ∃ pattern, ¬ GlobCorrect text pattern := by
  obtain ⟨m, n, hmem, hreads⟩ := exists_pattern_of_stop (· = '*') h rfl
  refine ⟨List.replicate m '?' ++ '*' :: List.replicate n '?', ?_⟩
  have hsymbols : (List.replicate m '?' ++ '*' :: List.replicate n '?').map symbolOf =
      List.replicate m .one ++ .run :: List.replicate n .one := by
    simp [symbolOf]
  rw [globCorrect_iff, segmentLanguage, SegmentReads, hsymbols]
  exact fun hcorrect => hreads (hcorrect hmem)

/-- A segment is matched as its language has it exactly where the reading that takes each `*` of
the text for the pattern's own finds it too; for every pattern, where the text has no `*`. -/
theorem glob_segment_correct_iff (text pattern : List Char) :
    (GlobCorrect text pattern ↔
      (text ∈ segmentLanguage pattern → SegmentReads pattern text)) ∧
    ((∀ pattern, GlobCorrect text pattern) ↔ '*' ∉ text) := by
  refine ⟨globCorrect_iff, ⟨fun h hmem => ?_, fun h pattern => ?_⟩⟩
  · obtain ⟨pattern, hpattern⟩ := exists_not_globCorrect hmem
    exact hpattern (h pattern)
  · exact globCorrect_of_notMem h

/-- `releases/*` covers every release, and does not cover the pattern `releases/*-beta`. -/
theorem glob_segment_refuses_pattern : ¬ ∀ text pattern, GlobCorrect text pattern := by
  intro h
  have hmatch := (h "*-beta".toList "*".toList).mpr ?_
  · exact absurd hmatch (by simp [globSegment, globLoop])
  · exact mem_language_cons.mpr ⟨"*-beta".toList, trivial, [], mem_language_nil.mpr rfl, rfl⟩

/-! ## Whole paths -/

namespace TargetPath

variable {raw : String} {self pattern : TargetPath}

theorem safe_of_new (h : TargetPath.new raw = .ok self) :
    safePathInner raw false = .ok () ∧ self.value = raw := by
  unfold TargetPath.new at h
  obtain ⟨⟨⟩, hsafe, hself⟩ := Fallible.bind_eq_ok.mp h
  rw [← Fallible.pure_eq_ok.mp hself]
  exact ⟨hsafe, rfl⟩

theorem value_of_new (h : TargetPath.new raw = .ok self) : self.value = raw :=
  (safe_of_new h).2

/-- A target path, unlike a pattern, carries no glob metacharacter. -/
theorem star_notMem_of_new (h : TargetPath.new raw = .ok self) : '*' ∉ raw.toList := by
  have hsafe := (safe_of_new h).1
  unfold safePathInner at hsafe
  split at hsafe
  · cases hsafe
  · split at hsafe
    · cases hsafe
    · split at hsafe
      · cases hsafe
      next hfind =>
        rw [List.find?_eq_none] at hfind
        simpa using hfind '*' (by decide)

end TargetPath

end DistPlatform.Tuf
