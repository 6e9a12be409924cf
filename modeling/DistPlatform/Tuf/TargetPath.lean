import DistPlatform.Library.Text

/-!
# Target paths and delegation patterns (`tuf/src/metadata.rs`)

A target path is a file name inside the repository; a delegation pattern is a path in which
`*` and `?` are wildcards within one segment. A chain of delegations covers a path when the
pattern groups, each cut down by the ones before it, still leave a pattern that matches.

## Main definitions

* `TargetPath.new`, `TargetPath.newPattern` — the checked constructors.
* `globSegment` — one path segment against one pattern segment.
* `TargetPath.matchesPattern`, `TargetPath.matchesChain` — a path against one pattern and
  against the pattern groups of a delegation chain.
-/

namespace DistPlatform.Tuf

open DistPlatform

def PATH_ILLEGAL_COMPONENTS : List String := [".", ".."]

def PATH_ILLEGAL_COMPONENTS_CASE_INSENSITIVE : List String :=
  ["CON", "PRN", "AUX", "NUL", "COM1", "COM2", "COM3", "COM4", "COM5", "COM6", "COM7", "COM8",
   "COM9", "LPT1", "LPT2", "LPT3", "LPT4", "LPT5", "LPT6", "LPT7", "LPT8", "LPT9", "KEYBD$",
   "CLOCK$", "SCREEN$", "$IDLE$", "CONFIG$"]

/-- `PATH_ILLEGAL_STRINGS`; every entry of the table is a single character. -/
def PATH_ILLEGAL_STRINGS : List Char :=
  [':', '\\', '<', '>', '"', '|', '?', '*'] ++ (List.range 32).map Char.ofNat ++ [Char.ofNat 127]

/-- Why a path was refused (`Error::IllegalArgument`, by its message). -/
inductive PathError
  | empty
  | leadingSlash
  | contains (bad : Char)
  | component (name : List Char)
  deriving DecidableEq, Repr

/-- Only the ASCII part of `to_lowercase` matters: every name it is compared with is ASCII. -/
def toLowercase (component : List Char) : List Char := component.map Char.toLower

def illegalComponent (component : List Char) : Bool :=
  PATH_ILLEGAL_COMPONENTS.any (·.toList == component) ||
    PATH_ILLEGAL_COMPONENTS_CASE_INSENSITIVE.any (·.toList == toLowercase component)

/-- The characters `safe_path_inner` refuses; a pattern may carry the glob metacharacters. -/
def illegalChars (allowGlob : Bool) : List Char :=
  PATH_ILLEGAL_STRINGS.filter fun c => !(allowGlob && (c == '*' || c == '?'))

def safePathInner (path : String) (allowGlob : Bool) : Except PathError Unit :=
  if path.isEmpty then .error .empty
  else if Text.startsWith path "/" then .error .leadingSlash
  else match (illegalChars allowGlob).find? (· ∈ path.toList) with
    | some bad => .error (.contains bad)
    | none => match (Text.segments path).find? illegalComponent with
      | some component => .error (.component component)
      | none => .ok ()

/-- A path or a pattern; which of the two it may be is decided where it is built. -/
structure TargetPath where
  value : String
  deriving DecidableEq, Repr

def TargetPath.new (path : String) : Except PathError TargetPath := do
  safePathInner path false
  return ⟨path⟩

def TargetPath.newPattern (path : String) : Except PathError TargetPath := do
  safePathInner path true
  return ⟨path⟩

/-! ## Matching one segment -/

/-- The loop of `glob_segment`. `ts` and `ps` are what is left of text and pattern. `star`
is the remembered `*`: the pattern after it, and the text read since `resume`, latest first. -/
def globLoop (ts ps : List Char) (star : Option (List Char × List Char)) : Bool :=
  match ts, ps, star with
  | [], ps, _ => (ps.dropWhile (· == '*')).isEmpty
  | t :: ts, p :: ps, none =>
    if p == '?' || p == t then globLoop ts ps none
    else if p == '*' then globLoop (t :: ts) ps (some (ps, []))
    else false
  | _ :: _, [], none => false
  | t :: ts, p :: ps, some (after, seen) =>
    if p == '?' || p == t then globLoop ts ps (some (after, t :: seen))
    else if p == '*' then globLoop (t :: ts) ps (some (ps, []))
    -- backtrack: the star takes one more character
    else globLoop (seen.reverse ++ t :: ts).tail after (some (after, []))
  | t :: ts, [], some (after, seen) =>
    globLoop (seen.reverse ++ t :: ts).tail after (some (after, []))
termination_by ((match star with
  | none => ts.length + 1
  | some (_, seen) => seen.length + ts.length), ts.length, ps.length)
decreasing_by
  all_goals simp_wf
  all_goals simp [Prod.lex_def]
  all_goals grind

def globSegment (text pattern : List Char) : Bool := globLoop text pattern none

/-! ## Matching paths -/

namespace TargetPath

/-- `is_child`: upstream's directory form, kept for patterns that end in a slash. -/
def isChild (self parent : TargetPath) : Bool :=
  parent.value.toList.getLast? == some '/' && Text.startsWith self.value parent.value

def matchesPattern (self pattern : TargetPath) : Bool :=
  if self == pattern || self.isChild pattern then true
  else
    let target := Text.segments self.value
    let pattern := Text.segments pattern.value
    target.length == pattern.length && (target.zip pattern).all fun (t, p) => globSegment t p

/-- Each group of patterns is cut down to those the first group matches, until one is left. -/
def matchesChain (self : TargetPath) : List (List TargetPath) → Bool
  | [] => false
  | [group] => group.any self.matchesPattern
  | first :: g :: rest =>
    self.matchesChain ((g :: rest).map fun group =>
      group.filter fun parent => first.any parent.matchesPattern)
termination_by parents => parents.length

/-- Some pattern of the group matches the path. -/
def CoveredBy (self : TargetPath) (group : List TargetPath) : Prop :=
  ∃ p ∈ group, self.matchesPattern p = true

theorem matchesChain_singleton {self : TargetPath} {group : List TargetPath} :
    self.matchesChain [group] = true ↔ self.CoveredBy group := by
  simp [matchesChain, CoveredBy]

/-- A chain that covers a path ends in a group that covers it: filtering only removes
patterns. The induction is on the number of groups in front. -/
theorem coveredBy_of_matchesChain {self : TargetPath} {parents : List (List TargetPath)}
    {group : List TargetPath} (h : self.matchesChain (parents ++ [group]) = true) :
    self.CoveredBy group := by
  induction hn : parents.length generalizing parents group with
  | zero =>
    rw [List.length_eq_zero_iff] at hn
    subst hn
    exact matchesChain_singleton.mp h
  | succ n ih =>
    obtain ⟨first, parents, rfl⟩ := List.exists_cons_of_length_eq_add_one hn
    have hcut : self.matchesChain ((parents ++ [group]).map fun g =>
        g.filter fun parent => first.any parent.matchesPattern) = true := by
      cases parents <;> simpa [matchesChain] using h
    rw [List.map_append, List.map_singleton] at hcut
    obtain ⟨p, hp, hm⟩ := ih hcut (by simpa using hn)
    exact ⟨p, List.mem_of_mem_filter hp, hm⟩

end TargetPath

end DistPlatform.Tuf
