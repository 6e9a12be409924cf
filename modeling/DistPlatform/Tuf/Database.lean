import DistPlatform.Library.Fallible
import DistPlatform.Tuf.Metadata

/-!
# The trusted metadata database (`tuf/src/database.rs`)

The verifier answers a question about a target from the metadata it has accepted: the
top-level targets first, then a depth-first walk over the delegations. The walk enforces the
patterns of every delegation on the way (the fork's patch 4) and enters no role twice.

## Main definitions

* `Database` — the trusted metadata of each role.
* `Database.lookup` — the walk, with the roles entered so far.
* `Database.targetDescription` — `target_description_with_start_time`.
* `Database.Chain` — a chain of delegations all of which cover a path.
-/

namespace DistPlatform.Tuf

open Fallible

/-- Why the database refused (`tuf::Error`). -/
inductive Error
  | expiredMetadata (role : MetadataPath)
  | metadataNotFound (role : MetadataPath)
  | targetNotFound (path : TargetPath)
  deriving DecidableEq, Repr

structure Database where
  trustedRoot : RootMetadata
  trustedSnapshot : Option SnapshotMetadata
  trustedTargets : Option TargetsMetadata
  trustedTimestamp : Option TimestampMetadata
  trustedDelegations : List (MetadataPath × TargetsMetadata)
  deriving DecidableEq

/-- What `lookup` returns: whether the search is over, the description found, and the roles
entered so far (`&mut visited`). -/
abbrev Found := (Bool × Option TargetDescription) × List MetadataPath

namespace Database

/-- What the loop of `lookup` does at one delegation: return with what was found (or with
nothing), go on to the next delegation, or descend into the role's own delegations. -/
inductive Visit
  | stop (found : Option TargetDescription)
  | next
  | descend (child : Delegations)
  deriving DecidableEq

/-- The checks of the loop body, in the order of the source. Every check that fails returns
from the whole loop. -/
def enter (startTime : Time) (tuf : Database) (targetPath : TargetPath)
    (parents : List (List TargetPath)) (visited : List MetadataPath) (delegation : Delegation) :
    Visit :=
  if delegation.role ∈ visited then .stop none
  else if !targetPath.matchesChain (parents ++ [delegation.paths]) then .stop none
  else match tuf.trustedDelegations.lookup delegation.role with
    | none => .stop none
    | some trusted =>
      if trusted.expires ≤ startTime then .stop none
      else match trusted.targets.lookup targetPath with
        | some target => .stop (some target)
        | none => match trusted.delegations with
          | none => .next
          | some child => .descend child

/-- The `for delegation in delegations.roles()` loop of `lookup`; `recurse` is the call of
`lookup` on a delegated role's own delegations. -/
def lookupRoles (startTime : Time) (tuf : Database) (targetPath : TargetPath)
    (recurse : Bool → List Delegation → List (List TargetPath) → List MetadataPath → Found)
    (defaultTerminate : Bool) (parents : List (List TargetPath)) :
    List Delegation → List MetadataPath → Found
  | [], visited => ((defaultTerminate, none), visited)
  | delegation :: roles, visited =>
    match enter startTime tuf targetPath parents visited delegation with
    | .stop found => ((delegation.terminating, found), visited.insert delegation.role)
    | .next =>
      lookupRoles startTime tuf targetPath recurse defaultTerminate parents roles
        (visited.insert delegation.role)
    | .descend child =>
      match recurse delegation.terminating child.roles (parents ++ [delegation.paths])
          (visited.insert delegation.role) with
      | ((term, res), visited) =>
        if term then ((true, res), visited)
        else if res.isSome then ((term, res), visited)
        else lookupRoles startTime tuf targetPath recurse defaultTerminate parents roles visited

/-- `lookup`. The source recurses without a bound; here `fuel` bounds the depth, and
`lookup_fuel` shows that the bound `targetDescription` uses is never reached. -/
def lookup (startTime : Time) (tuf : Database) (targetPath : TargetPath) :
    Nat → Bool → List Delegation → List (List TargetPath) → List MetadataPath → Found
  | 0, defaultTerminate, _, _, visited => ((defaultTerminate, none), visited)
  | fuel + 1, defaultTerminate, delegations, parents, visited =>
    lookupRoles startTime tuf targetPath (lookup startTime tuf targetPath fuel) defaultTerminate
      parents delegations visited

def trustedRootUnexpired (tuf : Database) (startTime : Time) : Except Error RootMetadata :=
  if tuf.trustedRoot.expires ≤ startTime then .error (.expiredMetadata .root)
  else .ok tuf.trustedRoot

def trustedSnapshotUnexpired (tuf : Database) (startTime : Time) :
    Except Error SnapshotMetadata :=
  match tuf.trustedSnapshot with
  | some snapshot =>
    if snapshot.expires ≤ startTime then .error (.expiredMetadata .snapshot) else .ok snapshot
  | none => .error (.metadataNotFound .snapshot)

def trustedTargetsUnexpired (tuf : Database) (startTime : Time) : Except Error TargetsMetadata :=
  match tuf.trustedTargets with
  | some targets =>
    if targets.expires ≤ startTime then .error (.expiredMetadata .targets) else .ok targets
  | none => .error (.metadataNotFound .targets)

/-- Deep enough for every chain of loaded roles that enters no role twice. -/
def depthBound (tuf : Database) : Nat := tuf.trustedDelegations.length + 1

/-- The search below the top-level targets, from no role entered. -/
def delegatedDescription (tuf : Database) (startTime : Time) (targetPath : TargetPath)
    (delegations : Delegations) : Option TargetDescription :=
  (lookup startTime tuf targetPath tuf.depthBound false delegations.roles [] []).1.2

/-- `target_description_with_start_time`. -/
def targetDescription (tuf : Database) (startTime : Time) (targetPath : TargetPath) :
    Except Error TargetDescription := do
  let _ ← tuf.trustedRootUnexpired startTime
  let _ ← tuf.trustedSnapshotUnexpired startTime
  let targets ← tuf.trustedTargetsUnexpired startTime
  match targets.targets.lookup targetPath with
  | some description => return description
  | none =>
    match targets.delegations with
    | none => throw (.targetNotFound targetPath)
    | some delegations =>
      match tuf.delegatedDescription startTime targetPath delegations with
      | some description => return description
      | none => throw (.targetNotFound targetPath)

/-- The top-level metadata every answer rests on is loaded and unexpired. -/
structure Fresh (tuf : Database) (startTime : Time) (top : TargetsMetadata) : Prop where
  root : startTime < tuf.trustedRoot.expires
  snapshot : ∃ snapshot, tuf.trustedSnapshot = some snapshot ∧ startTime < snapshot.expires
  targets : tuf.trustedTargets = some top
  unexpired : startTime < top.expires

/-- What the search gives once the top-level metadata is known to be fresh. -/
def searchFrom (tuf : Database) (startTime : Time) (targetPath : TargetPath)
    (top : TargetsMetadata) : Option TargetDescription :=
  match top.targets.lookup targetPath with
  | some description => some description
  | none => top.delegations.bind (tuf.delegatedDescription startTime targetPath)

theorem targetDescription_of_fresh {tuf : Database} {startTime : Time} {targetPath : TargetPath}
    {top : TargetsMetadata} (h : Fresh tuf startTime top) :
    tuf.targetDescription startTime targetPath =
      match tuf.searchFrom startTime targetPath top with
      | some description => .ok description
      | none => .error (.targetNotFound targetPath) := by
  obtain ⟨snapshot, hs, hsnap⟩ := h.snapshot
  have hroot : ¬ tuf.trustedRoot.expires ≤ startTime := Int.not_le.mpr h.root
  have hsnapshot : ¬ snapshot.expires ≤ startTime := Int.not_le.mpr hsnap
  have htop : ¬ top.expires ≤ startTime := Int.not_le.mpr h.unexpired
  simp only [targetDescription, trustedRootUnexpired, hroot, if_false, trustedSnapshotUnexpired,
    hs, hsnapshot, trustedTargetsUnexpired, h.targets, htop, bind, Except.bind, searchFrom]
  cases top.targets.lookup targetPath with
  | some description => rfl
  | none => cases top.delegations with
    | none => rfl
    | some delegations =>
      simp only [Option.bind_some]
      cases tuf.delegatedDescription startTime targetPath delegations <;> rfl

theorem fresh_of_targetDescription {tuf : Database} {startTime : Time} {targetPath : TargetPath}
    {description : TargetDescription}
    (h : tuf.targetDescription startTime targetPath = .ok description) :
    ∃ top, Fresh tuf startTime top := by
  simp only [targetDescription, bind_eq_ok] at h
  obtain ⟨root, hroot, snapshot, hsnap, top, htop, -⟩ := h
  have hroot := (ite_error_eq_ok.mp hroot).1
  unfold trustedSnapshotUnexpired at hsnap
  unfold trustedTargetsUnexpired at htop
  split at hsnap
  next s hs =>
    have hsnap := (ite_error_eq_ok.mp hsnap).1
    split at htop
    next t ht =>
      have htop := (ite_error_eq_ok.mp htop).1
      exact ⟨t, Int.not_le.mp hroot, ⟨s, hs, Int.not_le.mp hsnap⟩, ht, Int.not_le.mp htop⟩
    · cases htop
  · cases hsnap

theorem targetDescription_eq_ok {tuf : Database} {startTime : Time} {targetPath : TargetPath}
    {description : TargetDescription} :
    tuf.targetDescription startTime targetPath = .ok description ↔
      ∃ top, Fresh tuf startTime top ∧
        tuf.searchFrom startTime targetPath top = some description := by
  constructor
  · intro h
    obtain ⟨top, hfresh⟩ := fresh_of_targetDescription h
    refine ⟨top, hfresh, ?_⟩
    rw [targetDescription_of_fresh hfresh] at h
    split at h
    next found hfound => rw [hfound, Except.ok.inj h]
    · cases h
  · rintro ⟨top, hfresh, hsearch⟩
    rw [targetDescription_of_fresh hfresh, hsearch]

/-! ## What an answer is read from -/

section Congr

variable {tuf tuf' : Database} {now : Time} {path : TargetPath} {top : TargetsMetadata}

theorem lookup_congr (hroles : tuf'.trustedDelegations = tuf.trustedDelegations) (fuel : Nat) :
    lookup now tuf' path fuel = lookup now tuf path fuel := by
  have henter : ∀ parents visited d,
      enter now tuf' path parents visited d = enter now tuf path parents visited d := by
    intro parents visited d
    simp only [enter, hroles]
  have hstep : ∀ recurse dt parents roles visited,
      lookupRoles now tuf' path recurse dt parents roles visited =
        lookupRoles now tuf path recurse dt parents roles visited := by
    intro recurse dt parents roles visited
    induction roles generalizing visited with
    | nil => rfl
    | cons d roles ih => simp only [lookupRoles, henter, ih]
  induction fuel with
  | zero => rfl
  | succ fuel ih =>
    funext dt ds parents visited
    simp only [lookup, ih, hstep]

/-- The search reads the top-level targets and the delegated roles only. -/
theorem searchFrom_congr (hroles : tuf'.trustedDelegations = tuf.trustedDelegations) :
    tuf'.searchFrom now path top = tuf.searchFrom now path top := by
  have hdelegated : tuf'.delegatedDescription now path = tuf.delegatedDescription now path := by
    funext delegations
    simp only [delegatedDescription, depthBound, hroles, lookup_congr hroles]
  unfold searchFrom
  rw [hdelegated]

end Congr

/-! ## What one visit establishes -/

section Visit

variable {startTime : Time} {tuf : Database} {targetPath : TargetPath}
  {parents : List (List TargetPath)} {visited : List MetadataPath} {delegation : Delegation}

/-- The loop gets past its checks at a delegation only when the role is new, its pattern
chain covers the path, and its metadata is loaded and unexpired. -/
structure Entered (startTime : Time) (tuf : Database) (targetPath : TargetPath)
    (parents : List (List TargetPath)) (visited : List MetadataPath) (delegation : Delegation)
    (trusted : TargetsMetadata) : Prop where
  notVisited : delegation.role ∉ visited
  covers : targetPath.matchesChain (parents ++ [delegation.paths]) = true
  loaded : tuf.trustedDelegations.lookup delegation.role = some trusted
  unexpired : startTime < trusted.expires

theorem enter_cases :
    enter startTime tuf targetPath parents visited delegation = .stop none ∨
      ∃ trusted, Entered startTime tuf targetPath parents visited delegation trusted ∧
        enter startTime tuf targetPath parents visited delegation =
          match trusted.targets.lookup targetPath, trusted.delegations with
          | some target, _ => .stop (some target)
          | none, none => .next
          | none, some child => .descend child := by
  unfold enter
  split
  · exact .inl rfl
  next hnew =>
    split
    · exact .inl rfl
    next hcov =>
      split
      · exact .inl rfl
      next trusted hrole =>
        split
        · exact .inl rfl
        next hexp =>
          refine .inr ⟨trusted, ⟨hnew, by simpa using hcov, hrole, Int.not_le.mp hexp⟩, ?_⟩
          cases trusted.targets.lookup targetPath <;> cases trusted.delegations <;> rfl

theorem enter_of_entered {trusted : TargetsMetadata}
    (h : Entered startTime tuf targetPath parents visited delegation trusted) :
    enter startTime tuf targetPath parents visited delegation =
      match trusted.targets.lookup targetPath, trusted.delegations with
      | some target, _ => .stop (some target)
      | none, none => .next
      | none, some child => .descend child := by
  have hexp : ¬ trusted.expires ≤ startTime := Int.not_le.mpr h.unexpired
  simp only [enter, h.notVisited, if_false, h.covers, Bool.not_true, Bool.false_eq_true,
    h.loaded, hexp]
  cases trusted.targets.lookup targetPath <;> cases trusted.delegations <;> rfl

/-- A delegation whose pattern chain does not cover the path ends the loop. -/
theorem enter_of_not_covered (h : targetPath.matchesChain (parents ++ [delegation.paths]) = false) :
    enter startTime tuf targetPath parents visited delegation = .stop none := by
  simp [enter, h]

theorem entered_of_found {target : TargetDescription}
    (h : enter startTime tuf targetPath parents visited delegation = .stop (some target)) :
    ∃ trusted, Entered startTime tuf targetPath parents visited delegation trusted ∧
      trusted.targets.lookup targetPath = some target := by
  rcases @enter_cases startTime tuf targetPath parents visited delegation with
    h' | ⟨md, he, h'⟩
  · simp [h'] at h
  · refine ⟨md, he, ?_⟩
    rw [h'] at h
    split at h <;> simp_all

theorem entered_of_descend {child : Delegations}
    (h : enter startTime tuf targetPath parents visited delegation = .descend child) :
    ∃ trusted, Entered startTime tuf targetPath parents visited delegation trusted ∧
      trusted.delegations = some child := by
  rcases @enter_cases startTime tuf targetPath parents visited delegation with
    h' | ⟨md, he, h'⟩
  · simp [h'] at h
  · refine ⟨md, he, ?_⟩
    rw [h'] at h
    split at h <;> simp_all

end Visit

/-! ## The bound on the depth is never reached -/

section Fuel

variable {startTime : Time} {tuf : Database} {targetPath : TargetPath}

/-- The loaded roles not entered yet. -/
def unvisited (tuf : Database) (visited : List MetadataPath) : Nat :=
  (tuf.trustedDelegations.filter (·.1 ∉ visited)).length

theorem unvisited_mono {visited visited' : List MetadataPath} (h : visited ⊆ visited') :
    tuf.unvisited visited' ≤ tuf.unvisited visited := by
  refine (List.monotone_filter_right _ fun entry hm => ?_).length_le
  simp only [decide_eq_true_eq] at hm ⊢
  exact fun hv => hm (h hv)

/-- Entering a loaded role for the first time leaves fewer to enter. -/
theorem unvisited_insert_lt {role : MetadataPath} {md : TargetsMetadata}
    {visited : List MetadataPath} (hrole : tuf.trustedDelegations.lookup role = some md)
    (hnew : role ∉ visited) : tuf.unvisited (visited.insert role) < tuf.unvisited visited := by
  have hmem : (role, md) ∈ tuf.trustedDelegations := by
    obtain ⟨l₁, l₂, hl, -⟩ := List.lookup_eq_some_iff.mp hrole
    simp [hl]
  have hsub : tuf.trustedDelegations.filter (·.1 ∉ visited.insert role) =
      (tuf.trustedDelegations.filter (·.1 ∉ visited)).filter (·.1 ≠ role) := by
    rw [List.filter_filter]
    congr 1
    funext entry
    simp
  unfold unvisited
  rw [hsub]
  refine List.length_filter_lt_length_iff_exists.mpr ⟨(role, md), ?_, by simp⟩
  simp [hmem, hnew]

theorem subset_insert (role : MetadataPath) (visited : List MetadataPath) :
    visited ⊆ visited.insert role := fun _ h => List.mem_insert_of_mem h

theorem subset_lookupRoles {recurse} (hrec : ∀ dt ds ps vs, vs ⊆ (recurse dt ds ps vs).2)
    (dt : Bool) (parents : List (List TargetPath)) (roles : List Delegation)
    (visited : List MetadataPath) :
    visited ⊆ (lookupRoles startTime tuf targetPath recurse dt parents roles visited).2 := by
  induction roles generalizing visited with
  | nil => simp [lookupRoles]
  | cons delegation roles ih =>
    have hstep := subset_insert delegation.role visited
    unfold lookupRoles
    split
    · exact hstep
    · exact List.Subset.trans hstep (ih _)
    next child _ =>
      have hchild := List.Subset.trans hstep (hrec delegation.terminating child.roles
        (parents ++ [delegation.paths]) (visited.insert delegation.role))
      split
      next term res vs heq =>
        rw [heq] at hchild
        split
        · exact hchild
        · split
          · exact hchild
          · exact List.Subset.trans hchild (ih _)

theorem subset_lookup (fuel : Nat) (dt : Bool) (ds : List Delegation)
    (parents : List (List TargetPath)) (visited : List MetadataPath) :
    visited ⊆ (lookup startTime tuf targetPath fuel dt ds parents visited).2 := by
  induction fuel generalizing dt ds parents visited with
  | zero => simp [lookup]
  | succ fuel ih => exact subset_lookupRoles ih dt parents ds visited

/-- Two recursive calls that agree wherever fewer roles are left give the same walk. -/
theorem lookupRoles_congr {r₁ r₂} (hsub : ∀ dt ds ps vs, vs ⊆ (r₁ dt ds ps vs).2)
    (dt : Bool) (parents : List (List TargetPath)) (roles : List Delegation)
    (visited : List MetadataPath)
    (h : ∀ dt ds ps vs, tuf.unvisited vs < tuf.unvisited visited →
      r₁ dt ds ps vs = r₂ dt ds ps vs) :
    lookupRoles startTime tuf targetPath r₁ dt parents roles visited =
      lookupRoles startTime tuf targetPath r₂ dt parents roles visited := by
  induction roles generalizing visited with
  | nil => rfl
  | cons delegation roles ih =>
    have htail : ∀ vs, visited ⊆ vs →
        lookupRoles startTime tuf targetPath r₁ dt parents roles vs =
          lookupRoles startTime tuf targetPath r₂ dt parents roles vs := fun vs hvs =>
      ih vs fun dt ds ps ws hws => h dt ds ps ws (hws.trans_le (unvisited_mono hvs))
    have hstep := subset_insert delegation.role visited
    unfold lookupRoles
    split
    · rfl
    · exact htail _ hstep
    next child henter =>
      obtain ⟨trusted, he, -⟩ := entered_of_descend henter
      rw [← h _ _ _ _ (unvisited_insert_lt he.loaded he.notVisited)]
      have hchild := List.Subset.trans hstep (hsub delegation.terminating child.roles
        (parents ++ [delegation.paths]) (visited.insert delegation.role))
      split
      next term res vs heq =>
        rw [heq] at hchild
        rw [htail _ hchild]

/-- Any two bounds above the number of loaded roles not entered yet give the same answer. -/
theorem lookup_fuel {m n : Nat} (dt : Bool) (ds : List Delegation)
    (parents : List (List TargetPath)) (visited : List MetadataPath)
    (hm : tuf.unvisited visited < m) (hn : tuf.unvisited visited < n) :
    lookup startTime tuf targetPath m dt ds parents visited =
      lookup startTime tuf targetPath n dt ds parents visited := by
  induction m generalizing n dt ds parents visited with
  | zero => omega
  | succ m ih =>
    cases n with
    | zero => omega
    | succ n =>
      refine lookupRoles_congr (subset_lookup m) dt parents ds visited fun dt ds ps vs hvs => ?_
      exact ih dt ds ps vs (by omega) (by omega)

theorem unvisited_lt_depthBound (visited : List MetadataPath) :
    tuf.unvisited visited < tuf.depthBound :=
  Nat.lt_succ_of_le (List.length_filter_le _ _)

end Fuel

/-! ## Chains of delegations -/

section Chain

/-- `Chain tuf path ds chain md`: `md` is the role metadata reached from the delegations `ds`
by following `chain`, every delegation of which has a pattern that covers `path`. -/
inductive Chain (tuf : Database) (path : TargetPath) :
    List Delegation → List Delegation → TargetsMetadata → Prop
  | last {ds : List Delegation} {delegation : Delegation} {md : TargetsMetadata} :
      delegation ∈ ds → path.CoveredBy delegation.paths →
      tuf.trustedDelegations.lookup delegation.role = some md →
      Chain tuf path ds [delegation] md
  | step {ds : List Delegation} {delegation : Delegation} {md : TargetsMetadata}
      {child : Delegations} {chain : List Delegation} {md' : TargetsMetadata} :
      delegation ∈ ds → path.CoveredBy delegation.paths →
      tuf.trustedDelegations.lookup delegation.role = some md →
      md.delegations = some child → Chain tuf path child.roles chain md' →
      Chain tuf path ds (delegation :: chain) md'

variable {startTime : Time} {tuf : Database} {targetPath : TargetPath}

theorem Chain.mono {ds ds' : List Delegation} {chain : List Delegation} {md : TargetsMetadata}
    (h : Chain tuf targetPath ds chain md) (hsub : ds ⊆ ds') :
    Chain tuf targetPath ds' chain md := by
  cases h with
  | last hd hc hl => exact .last (hsub hd) hc hl
  | step hd hc hl hm hrest => exact .step (hsub hd) hc hl hm hrest

theorem Chain.head_mem {ds chain : List Delegation} {md : TargetsMetadata}
    (h : Chain tuf targetPath ds chain md) :
    ∃ d ∈ ds, chain.head? = some d ∧ targetPath.CoveredBy d.paths := by
  cases h with
  | last hd hc _ => exact ⟨_, hd, rfl, hc⟩
  | step hd hc _ _ _ => exact ⟨_, hd, rfl, hc⟩

/-- A walk over a list of roles finds only what a covering chain lists, if its recursive
calls do. -/
theorem chain_of_lookupRoles {recurse} {target : TargetDescription}
    (hrec : ∀ dt ds ps vs, (recurse dt ds ps vs).1.2 = some target →
      ∃ chain md, Chain tuf targetPath ds chain md ∧ md.targets.lookup targetPath = some target)
    {dt : Bool} {parents : List (List TargetPath)} {roles : List Delegation}
    {visited : List MetadataPath}
    (h : (lookupRoles startTime tuf targetPath recurse dt parents roles visited).1.2 =
      some target) :
    ∃ chain md, Chain tuf targetPath roles chain md ∧
      md.targets.lookup targetPath = some target := by
  induction roles generalizing visited with
  | nil => simp [lookupRoles] at h
  | cons delegation roles ih =>
    have later : ∀ {vs}, (lookupRoles startTime tuf targetPath recurse dt parents roles vs).1.2 =
        some target → ∃ chain md, Chain tuf targetPath (delegation :: roles) chain md ∧
          md.targets.lookup targetPath = some target := by
      intro vs hvs
      obtain ⟨chain, md, hchain, hlist⟩ := ih hvs
      exact ⟨chain, md, hchain.mono (List.subset_cons_self _ _), hlist⟩
    unfold lookupRoles at h
    split at h
    next found henter =>
      change found = some target at h
      subst h
      obtain ⟨trusted, he, hlist⟩ := entered_of_found henter
      exact ⟨_, trusted, .last (by simp) (TargetPath.coveredBy_of_matchesChain he.covers)
        he.loaded, hlist⟩
    · exact later h
    next child henter =>
      obtain ⟨trusted, he, hchild⟩ := entered_of_descend henter
      have inner : (recurse delegation.terminating child.roles (parents ++ [delegation.paths])
          (visited.insert delegation.role)).1.2 = some target →
          ∃ chain md, Chain tuf targetPath (delegation :: roles) chain md ∧
            md.targets.lookup targetPath = some target := by
        intro hres
        obtain ⟨chain, md, hchain, hlist⟩ := hrec _ _ _ _ hres
        exact ⟨_, md, .step (by simp) (TargetPath.coveredBy_of_matchesChain he.covers)
          he.loaded hchild hchain, hlist⟩
      split at h
      next term res vs heq =>
        rw [heq] at inner
        split at h
        · exact inner h
        · split at h
          · exact inner h
          · exact later h

/-- Whatever the delegated roles contain, a description found by the walk is listed by role
metadata at the end of a chain of delegations that all cover the path. -/
theorem chain_of_lookup {fuel : Nat} {dt : Bool} {ds : List Delegation}
    {parents : List (List TargetPath)} {visited : List MetadataPath}
    {target : TargetDescription}
    (h : (lookup startTime tuf targetPath fuel dt ds parents visited).1.2 = some target) :
    ∃ chain md, Chain tuf targetPath ds chain md ∧
      md.targets.lookup targetPath = some target := by
  induction fuel generalizing dt ds parents visited with
  | zero => simp [lookup] at h
  | succ fuel ih => exact chain_of_lookupRoles (fun _ _ _ _ => ih) h

end Chain

end Database

end DistPlatform.Tuf
