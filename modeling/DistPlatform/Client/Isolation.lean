import DistPlatform.Core.Naming
import DistPlatform.Client.UpdateCheck
import DistPlatform.Tuf.Globbing
import Mathlib.Data.List.Nodup

/-!
# Applications seen from the client

The top-level targets metadata of the platform delegates one pattern to each application.
This module says what that shape makes of the verifier's walk: a path belongs to the
application of its first segment, and the walk reaches an application only where it is the
first one delegated.

## Main definitions

* `IsAppDelegation`, `HasAppDelegations` — the delegations `add_app` writes.
* `ListedFor` — a description that an application is entitled to have given.
-/

namespace DistPlatform.Client

open DistPlatform.Tuf (Database Delegation Delegations MetadataPath TargetsMetadata
  TargetDescription Time)

/-- The role of an application (`app-<id>`) as the client names it. -/
def appRole (appId : String) : MetadataPath := ⟨Core.APP_ROLE_PREFIX ++ appId⟩

/-- The delegation `add_app` writes for an application. -/
structure IsAppDelegation (appId : String) (delegation : Delegation) : Prop where
  role : Core.appRoleName appId = .ok delegation.role.value
  paths : delegation.paths = [⟨Core.appPathPattern appId⟩]
  notTerminating : delegation.terminating = false

/-- The delegations of the top-level metadata are those of `apps`, in that order. -/
def HasAppDelegations (top : TargetsMetadata) (apps : List String) : Prop :=
  match top.delegations with
  | none => apps = []
  | some delegations => List.Forall₂ IsAppDelegation apps delegations.roles

/-- The delegation of an application, as `add_app` builds it. -/
def appDelegation (appId : String) : Delegation where
  role := appRole appId
  terminating := false
  threshold := 1
  keyIds := []
  paths := [⟨Core.appPathPattern appId⟩]

theorem isAppDelegation_appDelegation {appId : String} (h : Core.appIdMatches appId = true) :
    IsAppDelegation appId (appDelegation appId) :=
  ⟨Core.appRoleName_eq_ok.mpr ⟨h, rfl⟩, rfl, rfl⟩

/-- Top-level metadata that delegates to `apps` and lists nothing itself. -/
def appTargets (apps : List String) (h : apps.Nodup) : TargetsMetadata where
  version := 1
  expires := 100
  targets := []
  delegations := some {
    keys := []
    roles := apps.map appDelegation
    rolesDistinct := by
      rw [List.map_map]
      refine List.Nodup.map (fun a b hab => ?_) h
      simpa [appDelegation, appRole] using hab }

theorem hasAppDelegations_appTargets {apps : List String} (h : apps.Nodup)
    (hvalid : ∀ a ∈ apps, Core.appIdMatches a = true) :
    HasAppDelegations (appTargets apps h) apps := by
  change List.Forall₂ IsAppDelegation apps (apps.map appDelegation)
  rw [List.forall₂_map_right_iff, List.forall₂_same]
  exact fun a ha => isAppDelegation_appDelegation (hvalid a ha)

/-! ## Which application covers a path -/

section Cover

variable {raw : String} {tufPath : Tuf.TargetPath} {appId : String} {delegation : Delegation}

theorem IsAppDelegation.role_eq (h : IsAppDelegation appId delegation) :
    delegation.role = appRole appId := by
  have := (Core.appRoleName_eq_ok.mp h.role).2
  cases hr : delegation.role
  simp_all [appRole]

theorem length_eq_five (path : TargetPath) :
    ∃ s₀ s₁ s₂ s₃ s₄, Text.segments path.asStr = [s₀, s₁, s₂, s₃, s₄] := by
  have h := path.segmentCount
  match hs : Text.segments path.asStr with
  | [s₀, s₁, s₂, s₃, s₄] => exact ⟨s₀, s₁, s₂, s₃, s₄, rfl⟩
  | [] | [_] | [_, _] | [_, _, _] | [_, _, _, _] | _ :: _ :: _ :: _ :: _ :: _ :: _ =>
    simp [hs, SEGMENTS] at h

/-- An application's pattern covers exactly the paths whose first segment is its id. -/
theorem coveredBy_iff {path : TargetPath} (htuf : Tuf.TargetPath.new path.asStr = .ok tufPath)
    (hd : IsAppDelegation appId delegation) :
    tufPath.CoveredBy delegation.paths ↔ Text.firstSegment path.asStr = appId.toList := by
  have hstar := Tuf.TargetPath.star_notMem_of_new htuf
  have hplain := fun c => Core.appIdMatches_plain (Core.appRoleName_eq_ok.mp hd.role).1 (c := c)
  have hpattern := Core.segments_appPathPattern fun h => (hplain '/' h).1 rfl
  have hne : (tufPath == ⟨Core.appPathPattern appId⟩) = false := by
    rw [beq_eq_false_iff_ne]
    rintro rfl
    refine hstar ?_
    rw [← Tuf.TargetPath.value_of_new htuf]
    simp [Core.appPathPattern, Core.TARGET_PATH_SEGMENTS, List.replicate_succ]
  have hdir : tufPath.isChild ⟨Core.appPathPattern appId⟩ = false := by
    simp [Tuf.TargetPath.isChild, Core.appPathPattern, Core.TARGET_PATH_SEGMENTS,
      List.replicate_succ]
  obtain ⟨s₀, s₁, s₂, s₃, s₄, hseg⟩ := length_eq_five path
  have hwild : ∀ s ∈ [s₀, s₁, s₂, s₃, s₄], Tuf.globSegment s ['*'] = true := fun s hs =>
    Tuf.globSegment_star fun hc => hstar (Text.mem_of_mem_splitOn (hseg ▸ hs) hc)
  have hfirst : Text.firstSegment path.asStr = s₀ := by
    simpa [hseg] using (Text.head?_segments path.asStr).symm
  have hlit : Tuf.globSegment s₀ appId.toList = true ↔ s₀ = appId.toList :=
    Tuf.globSegment_literal fun c hc => (hplain c hc).2
  simp only [Tuf.TargetPath.CoveredBy, hd.paths, List.mem_singleton, exists_eq_left,
    Tuf.TargetPath.matchesPattern, hne, hdir, Bool.or_self, Bool.false_eq_true, if_false,
    Tuf.TargetPath.value_of_new htuf, hseg, hpattern, hfirst]
  simp [hlit, hwild]

end Cover

/-! ## The walk over the applications' delegations -/

section Walk

variable {verifier : TufVerifier} {systemTime : Int} {path : TargetPath} {now : Time}
  {tuf : Database} {tufPath : Tuf.TargetPath} {apps : List String} {appId : String}
  {delegation : Delegation} {roles : List Delegation}

theorem matchesChain_top_iff (htuf : Tuf.TargetPath.new path.asStr = .ok tufPath)
    (hd : IsAppDelegation appId delegation) :
    tufPath.matchesChain ([] ++ [delegation.paths]) = true ↔
      Text.firstSegment path.asStr = appId.toList := by
  rw [List.nil_append, Tuf.TargetPath.matchesChain_singleton, coveredBy_iff htuf hd]

/-- The walk stops, with nothing, at a first delegation that is another application's. -/
theorem lookupRoles_other {recurse} {dt : Bool} {visited : List MetadataPath}
    (htuf : Tuf.TargetPath.new path.asStr = .ok tufPath)
    (hroles : List.Forall₂ IsAppDelegation apps roles)
    (hfirst : Text.firstSegment path.asStr = appId.toList) (hother : apps.head? ≠ some appId) :
    (Database.lookupRoles now tuf tufPath recurse dt [] roles visited).1.2 = none := by
  cases hroles with
  | nil => rfl
  | @cons first d apps roles hd _ =>
    have hne : ¬ Text.firstSegment path.asStr = first.toList := by
      rw [hfirst, String.toList_inj]
      exact fun h => hother (by simp [h])
    have hcov : tufPath.matchesChain ([] ++ [d.paths]) = false := by
      rw [← Bool.not_eq_true, matchesChain_top_iff htuf hd]
      exact hne
    simp only [Database.lookupRoles, Database.enter_of_not_covered hcov]

/-- Where the application comes first, the walk is one visit of its role: the delegations
behind it belong to others and add nothing. -/
theorem lookupRoles_first {recurse} {dt : Bool} (htuf : Tuf.TargetPath.new path.asStr = .ok tufPath)
    (hd : IsAppDelegation appId delegation)
    (hroles : List.Forall₂ IsAppDelegation apps roles) (hnew : appId ∉ apps)
    (hfirst : Text.firstSegment path.asStr = appId.toList) :
    (Database.lookupRoles now tuf tufPath recurse dt [] (delegation :: roles) []).1.2 =
      match Database.enter now tuf tufPath [] [] delegation with
      | .stop found => found
      | .next => none
      | .descend child =>
        (recurse false child.roles [delegation.paths] [delegation.role]).1.2 := by
  have hrest : ∀ visited,
      (Database.lookupRoles now tuf tufPath recurse dt [] roles visited).1.2 = none :=
    fun visited => lookupRoles_other htuf hroles hfirst fun h => hnew (List.mem_of_mem_head? h)
  have hvisited : ([] : List MetadataPath).insert delegation.role = [delegation.role] := rfl
  rw [Database.lookupRoles, hd.notTerminating, hvisited]
  cases Database.enter now tuf tufPath [] [] delegation with
  | stop found => rfl
  | next => exact hrest _
  | descend child =>
    simp only [List.nil_append]
    split
    · rfl
    · split
      · rfl
      next hres => simpa [hrest] using (Option.not_isSome_iff_eq_none.mp hres).symm

/-- The apps of metadata of the shape `add_app` writes are distinct. -/
theorem apps_nodup (hroles : List.Forall₂ IsAppDelegation apps roles)
    (hdistinct : (roles.map (·.role)).Nodup) : apps.Nodup := by
  have hmap : roles.map (·.role) = apps.map appRole := by
    induction hroles with
    | nil => rfl
    | cons hd _ ih => simp_all [hd.role_eq]
  exact (hmap ▸ hdistinct : (apps.map appRole).Nodup).of_map

end Walk

/-! ## Who may describe a path -/

section Isolated

variable {verifier : TufVerifier} {systemTime : Int} {path : TargetPath} {now : Time}
  {tuf : Database} {tufPath : Tuf.TargetPath} {top : TargetsMetadata} {apps : List String}
  {appId : String} {description : TargetDescription}

/-- A description an application is entitled to have given: the top-level targets list it,
or role metadata does that a chain of covering delegations reaches from the application's own
role. -/
def ListedFor (tuf : Database) (top : TargetsMetadata) (appId : String)
    (tufPath : Tuf.TargetPath) (description : TargetDescription) : Prop :=
  top.targets.lookup tufPath = some description ∨
    ∃ delegations chain md, top.delegations = some delegations ∧
      Database.Chain tuf tufPath delegations.roles chain md ∧
      chain.head?.map (·.role) = some (appRole appId) ∧
      md.targets.lookup tufPath = some description

theorem description_eq_ok :
    verifier.description systemTime path = .ok description ↔
      ∃ now tufPath, verifier.now systemTime = .ok now ∧
        Tuf.TargetPath.new path.asStr = .ok tufPath ∧
        verifier.database.targetDescription now tufPath = .ok description := by
  unfold TufVerifier.description
  cases verifier.now systemTime with
  | error e => simp
  | ok now => cases Tuf.TargetPath.new path.asStr with
    | error e => simp
    | ok tufPath => cases h : verifier.database.targetDescription now tufPath <;> simp [h]

/-- The answer to a path depends on the database only through the description it finds. -/
theorem target_congr {verifier' : TufVerifier} (hclock : verifier'.clock = verifier.clock)
    (h : ∀ now tufPath d, verifier.now systemTime = .ok now →
      Tuf.TargetPath.new path.asStr = .ok tufPath →
        (verifier'.database.targetDescription now tufPath = .ok d ↔
          verifier.database.targetDescription now tufPath = .ok d)) :
    verifier'.target systemTime path = verifier.target systemTime path := by
  have hnow : verifier'.now systemTime = verifier.now systemTime := by
    rw [TufVerifier.now, hclock, TufVerifier.now]
  have hdesc : verifier'.description systemTime path = verifier.description systemTime path := by
    unfold TufVerifier.description
    rw [hnow]
    cases hclock : verifier.now systemTime with
    | error e => rfl
    | ok now =>
      cases htuf : Tuf.TargetPath.new path.asStr with
      | error e => rfl
      | ok tufPath =>
        have hd := fun d => h now tufPath d hclock htuf
        simp only [Fallible.bind_ok]
        cases hv : verifier.database.targetDescription now tufPath with
        | ok d => rw [(hd d).mpr hv]
        | error e =>
          cases hv' : verifier'.database.targetDescription now tufPath with
          | ok d => simpa [hv] using (hd d).mp hv'
          | error e' => rfl
  unfold TufVerifier.target
  rw [hdesc]

/-- A delegation that covers a path is the delegation of the path's application. -/
theorem IsAppDelegation.role_of_covers {roles : List Delegation} {delegation : Delegation}
    (htuf : Tuf.TargetPath.new path.asStr = .ok tufPath)
    (hroles : List.Forall₂ IsAppDelegation apps roles) (hmem : delegation ∈ roles)
    (hcov : tufPath.CoveredBy delegation.paths)
    (hfirst : Text.firstSegment path.asStr = appId.toList) : delegation.role = appRole appId := by
  obtain ⟨other, hd⟩ : ∃ other, IsAppDelegation other delegation := by
    induction hroles with
    | nil => cases hmem
    | cons hd _ ih =>
      rcases List.mem_cons.mp hmem with rfl | hmem
      · exact ⟨_, hd⟩
      · exact ih hmem
  have h := (coveredBy_iff htuf hd).mp hcov
  rw [hfirst, String.toList_inj] at h
  rw [hd.role_eq, h]

/-- Everything the search finds for a path of an application, the application may list. -/
theorem listedFor_of_searchFrom (htuf : Tuf.TargetPath.new path.asStr = .ok tufPath)
    (hshape : HasAppDelegations top apps)
    (hfirst : Text.firstSegment path.asStr = appId.toList)
    (h : tuf.searchFrom now tufPath top = some description) :
    ListedFor tuf top appId tufPath description := by
  unfold Database.searchFrom at h
  split at h
  next found hfound => exact .inl (hfound.trans h)
  · obtain ⟨delegations, hdel, hfind⟩ := Option.bind_eq_some_iff.mp h
    obtain ⟨chain, md, hchain, hlist⟩ := Database.chain_of_lookup hfind
    obtain ⟨head, hmem, hhead, hcov⟩ := hchain.head_mem
    have hroles : List.Forall₂ IsAppDelegation apps delegations.roles := by
      simpa [HasAppDelegations, hdel] using hshape
    have hrole := IsAppDelegation.role_of_covers htuf hroles hmem hcov hfirst
    exact .inr ⟨delegations, chain, md, hdel, hchain, by simp [hhead, hrole], hlist⟩

/-- The walk below metadata of the shape `add_app` writes reads only the application's own
role, when that role delegates no further. -/
theorem delegatedDescription_congr {tuf' : Database} {delegations : Delegations}
    (htuf : Tuf.TargetPath.new path.asStr = .ok tufPath)
    (hroles : List.Forall₂ IsAppDelegation apps delegations.roles)
    (hfirst : Text.firstSegment path.asStr = appId.toList)
    (hsame : tuf'.trustedDelegations.lookup (appRole appId) =
      tuf.trustedDelegations.lookup (appRole appId))
    (hflat : ∀ md, tuf.trustedDelegations.lookup (appRole appId) = some md →
      md.delegations = none) :
    tuf'.delegatedDescription now tufPath delegations =
      tuf.delegatedDescription now tufPath delegations := by
  have hnodup := apps_nodup hroles delegations.rolesDistinct
  unfold Database.delegatedDescription Database.depthBound Database.lookup
  revert hroles
  cases delegations.roles with
  | nil => intro _; rfl
  | cons d roles =>
    intro hroles
    cases hroles with
    | @cons first _ apps _ hd hroles =>
      by_cases happ : first = appId
      · subst happ
        have hnew := (List.nodup_cons.mp hnodup).1
        have henter : Database.enter now tuf' tufPath [] [] d =
            Database.enter now tuf tufPath [] [] d := by
          simp only [Database.enter, hd.role_eq, hsame]
        have hnodescend : ∀ child, Database.enter now tuf tufPath [] [] d ≠ .descend child := by
          intro child h
          obtain ⟨md, he, hchild⟩ := Database.entered_of_descend h
          rw [hflat md (hd.role_eq ▸ he.loaded)] at hchild
          cases hchild
        rw [lookupRoles_first htuf hd hroles hnew hfirst,
          lookupRoles_first htuf hd hroles hnew hfirst, henter]
        split
        · rfl
        · rfl
        next child h => exact absurd h (hnodescend child)
      · have hother : (first :: apps).head? ≠ some appId := by simpa using happ
        rw [lookupRoles_other htuf (.cons hd hroles) hfirst hother,
          lookupRoles_other htuf (.cons hd hroles) hfirst hother]

/-- What the search finds for a path that the application's own role metadata lists: the
top-level entry if there is one, else the application's, but only where the application is
the first one delegated. -/
theorem searchFrom_listed {md : TargetsMetadata}
    (htuf : Tuf.TargetPath.new path.asStr = .ok tufPath) (hshape : HasAppDelegations top apps)
    (hfirst : Text.firstSegment path.asStr = appId.toList)
    (hloaded : tuf.trustedDelegations.lookup (appRole appId) = some md)
    (hunexpired : now < md.expires) (hlisted : md.targets.lookup tufPath = some description) :
    tuf.searchFrom now tufPath top =
      match top.targets.lookup tufPath with
      | some found => some found
      | none => if apps.head? = some appId then some description else none := by
  unfold Database.searchFrom
  cases top.targets.lookup tufPath with
  | some found => rfl
  | none =>
    dsimp only
    cases hdel : top.delegations with
    | none =>
      obtain rfl : apps = [] := by simpa [HasAppDelegations, hdel] using hshape
      rfl
    | some delegations =>
      have hroles : List.Forall₂ IsAppDelegation apps delegations.roles := by
        simpa [HasAppDelegations, hdel] using hshape
      have hnodup := apps_nodup hroles delegations.rolesDistinct
      rw [Option.bind_some]
      unfold Database.delegatedDescription Database.depthBound Database.lookup
      split
      next hhead =>
        obtain ⟨rest, rfl⟩ : ∃ rest, apps = appId :: rest := List.head?_eq_some_iff.mp hhead
        obtain ⟨d, roles, hd, hrest, heq⟩ := List.forall₂_cons_left_iff.mp hroles
        have hentered : Database.Entered now tuf tufPath [] [] d md :=
          ⟨List.not_mem_nil, (matchesChain_top_iff htuf hd).mpr hfirst,
            hd.role_eq ▸ hloaded, hunexpired⟩
        rw [heq, lookupRoles_first htuf hd hrest (List.nodup_cons.mp hnodup).1 hfirst,
          Database.enter_of_entered hentered, hlisted]
      next hhead => exact lookupRoles_other htuf hroles hfirst hhead

/-- Application isolation. Whatever the delegated roles contain, a description returned for a
path of application `appId` was listed for it by the top-level targets or along a chain of
covering delegations from that application's own role; and when that role delegates no
further, no change to the other roles changes the answer. -/
theorem target_isolated (htop : verifier.database.trustedTargets = some top)
    (hshape : HasAppDelegations top apps)
    (hfirst : Text.firstSegment path.asStr = appId.toList) :
    (∀ info, verifier.target systemTime path = .ok info →
      ∃ tufPath description, Tuf.TargetPath.new path.asStr = .ok tufPath ∧
        targetInfo description = .ok info ∧
        ListedFor verifier.database top appId tufPath description) ∧
    (∀ others : List (MetadataPath × TargetsMetadata),
      others.lookup (appRole appId) =
        verifier.database.trustedDelegations.lookup (appRole appId) →
      (∀ md, verifier.database.trustedDelegations.lookup (appRole appId) = some md →
        md.delegations = none) →
      ({ verifier with
          database := { verifier.database with trustedDelegations := others } } :
        TufVerifier).target systemTime path = verifier.target systemTime path) := by
  constructor
  · intro info h
    obtain ⟨description, hdesc, hinfo⟩ := TufVerifier.target_eq_ok.mp h
    obtain ⟨now, tufPath, -, htuf, hfound⟩ := description_eq_ok.mp hdesc
    obtain ⟨top', hfresh, hsearch⟩ := Database.targetDescription_eq_ok.mp hfound
    obtain rfl : top' = top := Option.some.inj (hfresh.targets.symm.trans htop)
    exact ⟨tufPath, description, htuf, hinfo,
      listedFor_of_searchFrom htuf hshape hfirst hsearch⟩
  · intro others hsame hflat
    refine target_congr rfl fun now tufPath d _ htuf => ?_
    have hsearch : { verifier.database with trustedDelegations := others }.searchFrom now tufPath
        top = verifier.database.searchFrom now tufPath top := by
      unfold Database.searchFrom
      cases hdel : top.delegations with
      | none => rfl
      | some delegations =>
        have hroles : List.Forall₂ IsAppDelegation apps delegations.roles := by
          simpa [HasAppDelegations, hdel] using hshape
        rw [Option.bind_some, Option.bind_some,
          delegatedDescription_congr htuf hroles hfirst hsame hflat]
    rw [Database.targetDescription_eq_ok, Database.targetDescription_eq_ok]
    constructor
    · rintro ⟨top', hfresh, hd⟩
      obtain rfl : top' = top := Option.some.inj (hfresh.targets.symm.trans htop)
      exact ⟨top', ⟨hfresh.root, hfresh.snapshot, htop, hfresh.unexpired⟩, hsearch ▸ hd⟩
    · rintro ⟨top', hfresh, hd⟩
      obtain rfl : top' = top := Option.some.inj (hfresh.targets.symm.trans htop)
      exact ⟨top', ⟨hfresh.root, hfresh.snapshot, htop, hfresh.unexpired⟩, hsearch.trans hd⟩

def viewerPath : TargetPath :=
  ⟨"viewer/stable/linux-x64/1.0/v.zip", by decide, by decide⟩

def viewerDescription : TargetDescription :=
  ⟨3, [(.Sha256, List.replicate 32 7)], [("version", .str "1.0")]⟩

def viewerInfo : TargetInfo :=
  ⟨3, List.replicate 32 7, ⟨"1.0", 100, false, none, none, none⟩⟩

def viewerTargets : TargetsMetadata :=
  ⟨1, 100, [(⟨viewerPath.asStr⟩, viewerDescription)], none⟩

theorem viewerPath_new : Tuf.TargetPath.new viewerPath.asStr = .ok ⟨viewerPath.asStr⟩ := by
  decide

theorem viewerPath_first : Text.firstSegment viewerPath.asStr = "viewer".toList := by decide

/-- A verifier of two applications that has loaded one release of `viewer`. -/
def twoApps (apps : List String) (h : apps.Nodup) : TufVerifier where
  database :=
    { trustedRoot := ⟨1, 100, true, [], ⟨1, []⟩, ⟨1, []⟩, ⟨1, []⟩, ⟨1, []⟩⟩
      trustedSnapshot := some ⟨1, 100, []⟩
      trustedTargets := some (appTargets apps h)
      trustedTimestamp := none
      trustedDelegations := [(appRole "viewer", viewerTargets)] }
  clock := .Fixed 0

theorem target_isolated_viewer :
    ∃ tufPath description, Tuf.TargetPath.new viewerPath.asStr = .ok tufPath ∧
      targetInfo description = .ok viewerInfo ∧
      ListedFor (twoApps ["viewer", "editor"] (by decide)).database
        (appTargets ["viewer", "editor"] (by decide)) "viewer" tufPath description := by
  have hshape : HasAppDelegations (appTargets ["viewer", "editor"] (by decide))
      ["viewer", "editor"] := hasAppDelegations_appTargets _ (by decide)
  refine (@target_isolated (twoApps ["viewer", "editor"] (by decide)) 0 viewerPath _ _ _ rfl
    hshape viewerPath_first).1 viewerInfo ?_
  rw [TufVerifier.target_eq_ok]
  refine ⟨viewerDescription, description_eq_ok.mpr ⟨0, ⟨viewerPath.asStr⟩, rfl, viewerPath_new, ?_⟩, rfl⟩
  refine Database.targetDescription_eq_ok.mpr ⟨_, ⟨by decide, ⟨_, rfl, by decide⟩, rfl, by decide⟩, ?_⟩
  exact searchFrom_listed viewerPath_new hshape viewerPath_first rfl (by decide) rfl

end Isolated

end DistPlatform.Client
