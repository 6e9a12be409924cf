import DistPlatform.Client.Isolation
import DistPlatform.Client.Replay

/-!
# Resolving one application among several

Every check that fails inside the loop over the delegations returns from the whole loop, so
an application is found only where its delegation comes first. This module states exactly
when a path that an application lists is resolved, and what the delegations of others in
another state of the repository do to the verifier and to the update check.

## Main definitions

* `Listed` — a path that an application's accepted role metadata lists.
* `AnswersFor` — the condition under which the verifier returns the application's entry.
-/

namespace DistPlatform.Client

open DistPlatform.Tuf (Database MetadataPath TargetsMetadata TargetDescription Time)

/-- A path of an application, listed by that application's accepted and unexpired role
metadata, in a repository whose delegations have the shape `add_app` writes. -/
structure Listed (verifier : TufVerifier) (systemTime : Int) (path : TargetPath)
    (appId : String) where
  now : Time
  now_eq : verifier.now systemTime = .ok now
  tufPath : Tuf.TargetPath
  tufPath_eq : Tuf.TargetPath.new path.asStr = .ok tufPath
  top : TargetsMetadata
  top_eq : verifier.database.trustedTargets = some top
  apps : List String
  shape : HasAppDelegations top apps
  app_mem : appId ∈ apps
  under : Text.firstSegment path.asStr = appId.toList
  md : TargetsMetadata
  loaded : verifier.database.trustedDelegations.lookup (appRole appId) = some md
  unexpired : now < md.expires
  description : TargetDescription
  listed : md.targets.lookup tufPath = some description

namespace Listed

variable {verifier : TufVerifier} {systemTime : Int} {path : TargetPath} {appId : String}

/-- The top-level metadata is fresh, does not shadow the path with another entry, and
delegates to the application before any other. -/
structure AnswersFor (p : Listed verifier systemTime path appId) : Prop where
  fresh : Database.Fresh verifier.database p.now p.top
  notShadowed : ∀ found, p.top.targets.lookup p.tufPath = some found →
    targetInfo found = targetInfo p.description
  first : p.top.targets.lookup p.tufPath = none → p.apps.head? = some appId

theorem target_of_fresh (p : Listed verifier systemTime path appId)
    (hfresh : Database.Fresh verifier.database p.now p.top) :
    verifier.target systemTime path =
      match p.top.targets.lookup p.tufPath with
      | some found => targetInfo found
      | none => if p.apps.head? = some appId then targetInfo p.description
          else .error .UnknownTarget := by
  have hsearch := searchFrom_listed p.tufPath_eq p.shape p.under p.loaded p.unexpired p.listed
  have hdesc := @Database.targetDescription_of_fresh _ _ p.tufPath _ hfresh
  rw [hsearch] at hdesc
  simp only [TufVerifier.target, TufVerifier.description, p.now_eq, p.tufPath_eq, Fallible.bind_ok,
    hdesc]
  cases p.top.targets.lookup p.tufPath with
  | some found => rfl
  | none =>
    by_cases hhead : p.apps.head? = some appId
    · simp only [hhead, if_true]; rfl
    · simp only [hhead, if_false]; rfl

/-- Without fresh top-level metadata the verifier answers nothing. -/
theorem target_of_stale (p : Listed verifier systemTime path appId)
    (hstale : ¬ Database.Fresh verifier.database p.now p.top) :
    verifier.target systemTime path = .error .UnknownTarget := by
  have hnone : ∀ d, verifier.database.targetDescription p.now p.tufPath ≠ .ok d := by
    intro d hd
    obtain ⟨top, hfresh⟩ := Database.fresh_of_targetDescription hd
    obtain rfl : top = p.top := Option.some.inj (hfresh.targets.symm.trans p.top_eq)
    exact hstale hfresh
  simp only [TufVerifier.target, TufVerifier.description, p.now_eq, p.tufPath_eq, Fallible.bind_ok]
  cases hd : verifier.database.targetDescription p.now p.tufPath with
  | error e => rfl
  | ok d => exact absurd hd (hnone d)

theorem target_eq_iff (p : Listed verifier systemTime path appId) :
    verifier.target systemTime path = targetInfo p.description ↔ p.AnswersFor := by
  have hne := (TufVerifier.targetInfo_ne_unknown p.description).symm
  by_cases hfresh : Database.Fresh verifier.database p.now p.top
  · rw [p.target_of_fresh hfresh]
    cases hlook : p.top.targets.lookup p.tufPath with
    | some found =>
      refine ⟨fun h => ⟨hfresh, ?_, ?_⟩, fun h => h.notShadowed found hlook⟩
      · rintro _ hsome
        obtain rfl := Option.some.inj (hlook.symm.trans hsome)
        exact h
      · simp [hlook]
    | none =>
      refine ⟨fun h => ⟨hfresh, by simp [hlook], fun _ => ?_⟩, fun h => if_pos (h.first hlook)⟩
      by_contra hhead
      exact hne ((if_neg hhead).symm.trans h)
  · rw [p.target_of_stale hfresh]
    exact ⟨fun h => absurd h hne, fun h => absurd h.fresh hfresh⟩

end Listed

/-! ## Other delegations, same application -/

section Others

variable {tuf tuf' : Database} {now : Time} {path : TargetPath} {tufPath : Tuf.TargetPath}
  {top top' : TargetsMetadata} {apps apps' : List String} {appId : String}

theorem HasAppDelegations.of_mem (hshape : HasAppDelegations top apps) (hmem : appId ∈ apps) :
    ∃ delegations, top.delegations = some delegations ∧
      List.Forall₂ IsAppDelegation apps delegations.roles := by
  unfold HasAppDelegations at hshape
  split at hshape
  · rw [hshape] at hmem
    cases hmem
  next delegations hdelegations => exact ⟨delegations, hdelegations, hshape⟩

/-- A visit reads a delegation's role and patterns, which the application alone determines. -/
theorem enter_app_congr (hroles : tuf'.trustedDelegations = tuf.trustedDelegations)
    {d d' : Tuf.Delegation} (hd : IsAppDelegation appId d) (hd' : IsAppDelegation appId d')
    {parents : List (List Tuf.TargetPath)} {visited : List MetadataPath} :
    Database.enter now tuf' tufPath parents visited d' =
      Database.enter now tuf tufPath parents visited d := by
  simp only [Database.enter, hroles, hd.role_eq, hd'.role_eq, hd.paths, hd'.paths]

/-- For a path of an application, the delegations around its own change nothing as long as it
stays first, or stays behind another. -/
theorem searchFrom_others (hroles : tuf'.trustedDelegations = tuf.trustedDelegations)
    (htuf : Tuf.TargetPath.new path.asStr = .ok tufPath)
    (hshape : HasAppDelegations top apps) (hmem : appId ∈ apps)
    (hshape' : HasAppDelegations top' apps') (hmem' : appId ∈ apps')
    (hlisted : top'.targets.lookup tufPath = top.targets.lookup tufPath)
    (hfirst : Text.firstSegment path.asStr = appId.toList)
    (hhead : apps.head? = some appId ↔ apps'.head? = some appId) :
    tuf'.searchFrom now tufPath top' = tuf.searchFrom now tufPath top := by
  obtain ⟨delegations, hdel, happs⟩ := hshape.of_mem hmem
  obtain ⟨delegations', hdel', happs'⟩ := hshape'.of_mem hmem'
  have hnodup := apps_nodup happs delegations.rolesDistinct
  have hnodup' := apps_nodup happs' delegations'.rolesDistinct
  unfold Database.searchFrom
  rw [hlisted]
  cases top.targets.lookup tufPath with
  | some found => rfl
  | none =>
    simp only [hdel, hdel', Option.bind_some, Database.delegatedDescription, Database.depthBound,
      hroles, Database.lookup_congr hroles]
    unfold Database.lookup
    by_cases happ : apps.head? = some appId
    · obtain ⟨rest, rfl⟩ := List.head?_eq_some_iff.mp happ
      obtain ⟨rest', rfl⟩ := List.head?_eq_some_iff.mp (hhead.mp happ)
      obtain ⟨d, roles, hd, hrest, heq⟩ := List.forall₂_cons_left_iff.mp happs
      obtain ⟨d', roles', hd', hrest', heq'⟩ := List.forall₂_cons_left_iff.mp happs'
      rw [heq, heq', lookupRoles_first htuf hd hrest (List.nodup_cons.mp hnodup).1 hfirst,
        lookupRoles_first htuf hd' hrest' (List.nodup_cons.mp hnodup').1 hfirst,
        enter_app_congr rfl hd hd', hd.role_eq, hd'.role_eq, hd.paths, hd'.paths]
    · rw [lookupRoles_other htuf happs hfirst happ,
        lookupRoles_other htuf happs' hfirst (mt hhead.mpr happ)]

end Others

theorem appIdMatches_of_mem {top : TargetsMetadata} {apps : List String} {appId : String}
    (hshape : HasAppDelegations top apps) (hmem : appId ∈ apps) :
    Core.appIdMatches appId = true := by
  unfold HasAppDelegations at hshape
  split at hshape
  · simp [hshape] at hmem
  next delegations _ =>
    generalize delegations.roles = roles at hshape
    induction hshape with
    | nil => cases hmem
    | cons hd _ ih =>
      rcases List.mem_cons.mp hmem with rfl | hmem
      · exact (Core.appRoleName_eq_ok.mp hd.role).1
      · exact ih hmem

/-! ## What a check has accepted -/

section Accepted

variable {ic : Tuf.Interchange} {ports ports' : Ports} {channel : Channel} {root : Bytes}
  {clock : Clock} {systemTime : Int} {verifier verifier' : TufVerifier} {installId : String}
  {path path' : TargetPath}

/-- A check accepts one file of each role, none of them expired, and of the delegated roles the
application's only. -/
theorem accepted_of_acceptMetadata
    (h : acceptMetadata ports (tufUpdates ic) channel root clock systemTime =
      .ok (some verifier)) :
    verifier.clock = clock ∧ ∃ now top role md, verifier.now systemTime = .ok now ∧
      Database.Fresh verifier.database now top ∧
        verifier.database.trustedDelegations = [(role, md)] := by
  obtain ⟨v₀, _, v₁, _, _, v₂, _, _, v₃, _, _, hboot, -, hfed₁, -, -, hfed₂, -, -, hfed₃, -, -,
    hfed₄⟩ := acceptMetadata_eq_some.mp h
  -- the embedded root, then a file of each role
  have hv₀ : ∃ first, v₀ = ⟨⟨first, none, none, none, []⟩, clock⟩ := by
    unfold bootstrap at hboot
    split at hboot
    next db hdb =>
      obtain ⟨first, rfl⟩ := Database.fromTrustedRoot_eq_ok (rejected_eq_ok.mp hdb)
      exact ⟨first, (Except.ok.inj hboot).symm⟩
    · cases hboot
  obtain ⟨first, rfl⟩ := hv₀
  obtain ⟨_, _, -, hupdate, rfl⟩ := feed_eq_ok.mp hfed₁
  obtain ⟨t, -, -, rfl⟩ := Database.updateTimestamp_eq_ok.mp (rejected_eq_ok.mp hupdate)
  obtain ⟨_, _, -, hupdate, rfl⟩ := feed_eq_ok.mp hfed₂
  obtain ⟨-, -, s, -, -, rfl⟩ := Database.updateSnapshot_eq_ok.mp (rejected_eq_ok.mp hupdate)
  obtain ⟨_, _, -, hupdate, rfl⟩ := feed_eq_ok.mp hfed₃
  obtain ⟨-, -, _, top, -, -, -, -, rfl⟩ :=
    Database.updateTargets_eq_ok.mp (rejected_eq_ok.mp hupdate)
  obtain ⟨now, _, hnow, hupdate, rfl⟩ := feed_eq_ok.mp hfed₄
  unfold delegatedUpdate at hupdate
  split at hupdate
  · cases hupdate
  next role _ =>
    obtain ⟨hroot, hsnapshot, htop, _, _, _, md, -, -, -, -, -, rfl⟩ :=
      Database.updateDelegatedTargets_eq_ok.mp (rejected_eq_ok.mp hupdate)
    exact ⟨rfl, now, top, role, md, hnow, ⟨hroot, ⟨s, rfl, hsnapshot⟩, rfl, htop⟩, rfl⟩

namespace Listed

theorem fresh_of_accepted (p : Listed verifier systemTime path channel.appId)
    (h : acceptMetadata ports (tufUpdates ic) channel root clock systemTime =
      .ok (some verifier)) :
    verifier.clock = clock ∧ Database.Fresh verifier.database p.now p.top ∧
      verifier.database.trustedDelegations = [(appRole channel.appId, p.md)] := by
  obtain ⟨hclock, now, top, role, md, hnow, hfresh, hroles⟩ := accepted_of_acceptMetadata h
  obtain rfl := Except.ok.inj (p.now_eq.symm.trans hnow)
  obtain rfl := Option.some.inj (hfresh.targets.symm.trans p.top_eq)
  have hmem := Table.mem_of_get p.loaded
  rw [hroles, List.mem_singleton] at hmem
  exact ⟨hclock, hfresh, hmem ▸ hroles⟩

/-- The answers about an application's paths, in two states of the repository. -/
theorem target_others (p : Listed verifier systemTime path channel.appId)
    (p' : Listed verifier' systemTime path' channel.appId)
    (h : acceptMetadata ports (tufUpdates ic) channel root clock systemTime = .ok (some verifier))
    (h' : acceptMetadata ports' (tufUpdates ic) channel root clock systemTime =
      .ok (some verifier'))
    (hmd : p'.md = p.md)
    (hlisted : ∀ tufPath : Tuf.TargetPath, Text.firstSegment tufPath.value =
      channel.appId.toList → p'.top.targets.lookup tufPath = p.top.targets.lookup tufPath)
    (hhead : p.apps.head? = some channel.appId ↔ p'.apps.head? = some channel.appId)
    {other : TargetPath} (hfirst : Text.firstSegment other.asStr = channel.appId.toList) :
    verifier'.target systemTime other = verifier.target systemTime other := by
  obtain ⟨hclock, hfresh, hroles⟩ := p.fresh_of_accepted h
  obtain ⟨hclock', hfresh', hroles'⟩ := p'.fresh_of_accepted h'
  have hnow : verifier'.now systemTime = verifier.now systemTime := by
    rw [TufVerifier.now, hclock', TufVerifier.now, hclock]
  have hsame : p'.now = p.now :=
    Except.ok.inj (p'.now_eq.symm.trans (hnow.trans p.now_eq))
  rw [hsame] at hfresh'
  refine target_congr (hclock'.trans hclock.symm) fun now tufPath d hnow htuf => ?_
  obtain rfl := Except.ok.inj (p.now_eq.symm.trans hnow)
  have hsearch : verifier'.database.searchFrom p.now tufPath p'.top =
      verifier.database.searchFrom p.now tufPath p.top :=
    searchFrom_others (by rw [hroles', hroles, hmd]) htuf p.shape p.app_mem p'.shape p'.app_mem
      (hlisted tufPath (Tuf.TargetPath.value_of_new htuf ▸ hfirst)) hfirst hhead
  rw [Database.targetDescription_eq_ok, Database.targetDescription_eq_ok]
  constructor
  · rintro ⟨top, hanswering, hd⟩
    obtain rfl := Option.some.inj (hanswering.targets.symm.trans p'.top_eq)
    exact ⟨p.top, hfresh, hsearch ▸ hd⟩
  · rintro ⟨top, hanswering, hd⟩
    obtain rfl := Option.some.inj (hanswering.targets.symm.trans p.top_eq)
    exact ⟨p'.top, hfresh', hsearch.trans hd⟩

/-- What is under a channel's prefix is the application's. -/
theorem firstSegment_of_channel (p : Listed verifier systemTime path channel.appId)
    {text : String} {parsed : TargetPath} (hp : Text.startsWith text channel.pathPrefix = true)
    (hparse : TargetPath.parse (cString text) = .ok parsed) :
    Text.firstSegment parsed.asStr = channel.appId.toList := by
  have hid := appIdMatches_of_mem p.shape p.app_mem
  refine firstSegment_of_parse (fun h => (Core.appIdMatches_plain hid h).1 rfl) (fun h => ?_) hp
    hparse
  have hnul := Core.appIdMatches_chars hid _ h
  revert hnul
  decide

/-- The update check of an application, against two states of a repository that agree on the
application's own role. -/
theorem run_others (p : Listed verifier systemTime path channel.appId)
    (p' : Listed verifier' systemTime path' channel.appId)
    (h : acceptMetadata ports (tufUpdates ic) channel root clock systemTime = .ok (some verifier))
    (h' : acceptMetadata ports' (tufUpdates ic) channel root clock systemTime =
      .ok (some verifier'))
    (hmd : p'.md = p.md)
    (hlisted : ∀ tufPath : Tuf.TargetPath, Text.firstSegment tufPath.value =
      channel.appId.toList → p'.top.targets.lookup tufPath = p.top.targets.lookup tufPath)
    (hports : ports.SamePointer channel ports')
    (hhead : p.apps.head? = some channel.appId ↔ p'.apps.head? = some channel.appId) :
    run ports' (tufUpdates ic) installId channel root clock systemTime =
      run ports (tufUpdates ic) installId channel root clock systemTime := by
  rw [run_of_accepted h, run_of_accepted h']
  exact resolve_congr hports fun text parsed hp hparse =>
    p.target_others p' h h' hmd hlisted hhead (p.firstSegment_of_channel hp hparse)

/-- Behind another application's delegation, and without help from the top-level targets, the
update check finds nothing. -/
theorem run_behind (p : Listed verifier systemTime path channel.appId)
    (h : acceptMetadata ports (tufUpdates ic) channel root clock systemTime = .ok (some verifier))
    (hlisted : ∀ tufPath : Tuf.TargetPath, Text.firstSegment tufPath.value =
      channel.appId.toList → p.top.targets.lookup tufPath = none)
    (hhead : p.apps.head? ≠ some channel.appId) (available : Available) :
    run ports (tufUpdates ic) installId channel root clock systemTime ≠ .ok (some available) := by
  rw [run_of_accepted h]
  intro hoffered
  obtain ⟨seen, _, hseen, -⟩ := resolve_eq_some_iff.mp hoffered
  obtain ⟨parsed, info, hparse, htarget, -⟩ := bindingTarget_eq_some.mp hseen
  have hpointer : Text.startsWith channel.pointerPath channel.pathPrefix = true := by
    simp [Text.startsWith_iff, Channel.pointerPath, String.toList_append]
  have hfirst := p.firstSegment_of_channel hpointer hparse
  obtain ⟨d, hd, -⟩ := TufVerifier.target_eq_ok.mp htarget
  obtain ⟨now, tufPath, -, htuf, hfound⟩ := description_eq_ok.mp hd
  obtain ⟨top, hfresh, hsearch⟩ := Database.targetDescription_eq_ok.mp hfound
  obtain rfl := Option.some.inj (hfresh.targets.symm.trans p.top_eq)
  obtain ⟨delegations, hdelegations, happs⟩ := p.shape.of_mem p.app_mem
  unfold Database.searchFrom at hsearch
  rw [hlisted tufPath (Tuf.TargetPath.value_of_new htuf ▸ hfirst), hdelegations] at hsearch
  exact Option.some_ne_none d
    (hsearch.symm.trans (lookupRoles_other htuf happs hfirst hhead))

end Listed

end Accepted

/-- When a listed path is resolved, and what other delegations do to it. The verifier
returns the application's entry exactly under `AnswersFor`; two states of the repository give
one answer exactly when both or neither delegate to the application first; the update check of
the application cannot tell two such states apart that have accepted the same metadata of its
role; and behind another application it finds nothing. -/
theorem target_resolves_iff {verifier : TufVerifier} {systemTime : Int} {path : TargetPath}
    {appId : String} (p : Listed verifier systemTime path appId) :
    (verifier.target systemTime path = targetInfo p.description ↔ p.AnswersFor) ∧
    (∀ {verifier' : TufVerifier} (p' : Listed verifier' systemTime path appId),
      p'.description = p.description →
      Database.Fresh verifier.database p.now p.top →
      Database.Fresh verifier'.database p'.now p'.top →
      p.top.targets.lookup p.tufPath = none → p'.top.targets.lookup p'.tufPath = none →
      (verifier'.target systemTime path = verifier.target systemTime path ↔
        (p.apps.head? = some appId ↔ p'.apps.head? = some appId))) ∧
    (∀ {ic : Tuf.Interchange} {ports : Ports} {root : Bytes} {clock : Clock} {channel : Channel}
      {installId : String}, channel.appId = appId →
      acceptMetadata ports (tufUpdates ic) channel root clock systemTime = .ok (some verifier) →
      (∀ {ports' : Ports} {verifier' : TufVerifier} {path' : TargetPath}
        (p' : Listed verifier' systemTime path' appId),
        acceptMetadata ports' (tufUpdates ic) channel root clock systemTime =
          .ok (some verifier') →
        p'.md = p.md →
        (∀ tufPath : Tuf.TargetPath, Text.firstSegment tufPath.value = appId.toList →
          p'.top.targets.lookup tufPath = p.top.targets.lookup tufPath) →
        ports.SamePointer channel ports' →
        (p.apps.head? = some appId ↔ p'.apps.head? = some appId) →
        run ports' (tufUpdates ic) installId channel root clock systemTime =
          run ports (tufUpdates ic) installId channel root clock systemTime) ∧
      ((∀ tufPath : Tuf.TargetPath, Text.firstSegment tufPath.value = appId.toList →
          p.top.targets.lookup tufPath = none) →
        p.apps.head? ≠ some appId → ∀ available : Available,
          run ports (tufUpdates ic) installId channel root clock systemTime ≠
            .ok (some available))) := by
  refine ⟨p.target_eq_iff, ?_, ?_⟩
  · intro verifier' p' hsame hfresh hfresh' hlook hlook'
    have hne := TufVerifier.targetInfo_ne_unknown p.description
    rw [p.target_of_fresh hfresh, p'.target_of_fresh hfresh', hlook, hlook', hsame]
    by_cases h : p.apps.head? = some appId <;> by_cases h' : p'.apps.head? = some appId <;>
      simp [h, h', hne, hne.symm]
  · rintro ic ports root clock channel installId rfl haccept
    exact ⟨fun p' haccept' hmd hlisted hports hhead =>
      p.run_others p' haccept haccept' hmd hlisted hports hhead, p.run_behind haccept⟩

/-- The release of `viewer`, in a repository that also delegates to `editor`. -/
def viewerListed (apps : List String) (h : apps.Nodup) (hmem : "viewer" ∈ apps)
    (hvalid : ∀ a ∈ apps, Core.appIdMatches a = true) :
    Listed (twoApps apps h) 0 viewerPath "viewer" where
  now := 0
  now_eq := rfl
  tufPath := ⟨viewerPath.asStr⟩
  tufPath_eq := viewerPath_new
  top := appTargets apps h
  top_eq := rfl
  apps := apps
  shape := hasAppDelegations_appTargets h hvalid
  app_mem := hmem
  under := viewerPath_first
  md := viewerTargets
  loaded := rfl
  unexpired := by decide
  description := viewerDescription
  listed := rfl

theorem fresh_twoApps (apps : List String) (h : apps.Nodup) :
    Database.Fresh (twoApps apps h).database 0 (appTargets apps h) :=
  have hlater : (0 : Int) < 100 := by decide
  ⟨hlater, ⟨_, rfl, hlater⟩, rfl, hlater⟩

/-- A role, its patterns and whether it ends the search are what makes a delegation an
application's. -/
theorem isAppDelegation_of_map {apps : List String} {roles : List Tuf.Delegation}
    (hvalid : ∀ appId ∈ apps, Core.appIdMatches appId = true)
    (h : roles.map (fun d => (d.role, d.paths, d.terminating)) =
      apps.map fun appId => (appRole appId, [⟨Core.appPathPattern appId⟩], false)) :
    List.Forall₂ IsAppDelegation apps roles := by
  induction apps generalizing roles with
  | nil => exact List.map_eq_nil_iff.mp h ▸ .nil
  | cons appId apps ih =>
    obtain ⟨d, rest, rfl, hd, hrest⟩ := List.map_eq_cons_iff.mp h
    obtain ⟨hrole, hd⟩ := Prod.mk.inj hd
    obtain ⟨hpaths, hterminating⟩ := Prod.mk.inj hd
    exact .cons ⟨hrole ▸ Core.appRoleName_eq_ok.mpr ⟨hvalid appId List.mem_cons_self, rfl⟩,
        hpaths, hterminating⟩
      (ih (fun appId hmem => hvalid appId (List.mem_cons_of_mem _ hmem)) hrest)

/-- The role metadata of `viewer`, with one release. -/
def viewerLeaf : TargetsMetadata :=
  ⟨2, 20468 * 86400, [(⟨viewerPath.asStr⟩, viewerDescription)], none⟩

def delegationFor (appId : String) : String × Core.DelegatedRole :=
  let role := Core.APP_ROLE_PREFIX ++ appId
  (role, ⟨role, ed25519.map (·.1), 1, false, [Core.appPathPattern appId]⟩)

/-- The last files of a repository with `apps`, of which `viewer` has published. -/
def filesOf (apps : List String) (version : Nat) : Table String Core.Metadata :=
  [(Core.filename Core.TARGETS version,
      signedFile (.targets ⟨[], some ⟨ed25519.reverse, apps.map delegationFor⟩⟩) version 20544),
    (Core.filename Core.SNAPSHOT version,
      signedFile (.snapshot (("targets.json", version) :: apps.map fun appId =>
        (Core.APP_ROLE_PREFIX ++ appId ++ ".json", if appId = "viewer" then 2 else 1)))
        version 20461),
    ("timestamp.json", signedFile (.timestamp version) version 20455),
    ("2.app-viewer.json", signedFile (.targets ⟨[(viewerPath.asStr,
      ⟨3, hex (List.replicate 32 7), [("version", .str "1.0")]⟩)], none⟩) 2 20468)]

/-- Before `editor` was added, and after. -/
def viewerStates : List (List String × Nat) := [(["viewer"], 3), (["viewer", "editor"], 4)]

/-- The documents of both states. -/
def viewerInterchange : Tuf.Interchange :=
  { interchange with
    fromSlice := fun raw => ((rootFile :: viewerStates.flatMap fun state =>
      (filesOf state.1 state.2).map (·.2)).map document).find? (render · == raw) }

/-- The mirrors have no payload. -/
theorem fetch_payload {state : List String × Nat} (hstate : state ∈ viewerStates)
    {path : String} :
    (mirrorOf (filesOf state.1 state.2)).fetch ("targets/" ++ path) = .error "404" := by
  have hnames : ∀ state ∈ viewerStates, ∀ row ∈ filesOf state.1 state.2,
      Text.startsWith row.1 "targets/" = false := by
    decide +kernel
  cases hget : (filesOf state.1 state.2).get ("targets/" ++ path) with
  | none => simp only [mirrorOf, hget]
  | some md =>
    have hname := hnames state hstate _ (Table.mem_of_get hget)
    rw [Bool.eq_false_iff, ne_eq, Text.startsWith_iff, String.toList_append] at hname
    exact absurd (List.prefix_append _ _) hname

/-- In either state a check accepts the release of `viewer`. -/
theorem listed_of_viewerStates : ∀ state ∈ viewerStates, ∃ (verifier : TufVerifier)
    (p : Listed verifier noon viewerPath viewer.channel.appId),
    acceptMetadata (mirrorOf (filesOf state.1 state.2)) (tufUpdates viewerInterchange)
        viewer.channel viewer.root (.Fixed noon) noon = .ok (some verifier) ∧
      p.apps = state.1 ∧ p.md = viewerLeaf ∧ p.description = viewerDescription ∧
      p.top.targets = [] ∧ p.top.version = state.2 := by
  have hrun : ∀ state ∈ viewerStates,
      (acceptMetadata (mirrorOf (filesOf state.1 state.2)) (tufUpdates viewerInterchange)
        viewer.channel viewer.root (.Fixed noon) noon).toOption.join.map (fun verifier => decide
          (verifier.clock = .Fixed noon ∧
            verifier.database.trustedDelegations = [(appRole "viewer", viewerLeaf)] ∧
            ∃ top ∈ verifier.database.trustedTargets, top.version = state.2 ∧ top.targets = [] ∧
              ∃ delegations ∈ top.delegations,
                (delegations.roles.map fun d => (d.role, d.paths, d.terminating)) =
                  state.1.map fun appId =>
                    (appRole appId, [⟨Core.appPathPattern appId⟩], false))) = some true := by
    decide +kernel
  have hvalid : ∀ state ∈ viewerStates, "viewer" ∈ state.1 ∧
      ∀ appId ∈ state.1, Core.appIdMatches appId = true := by
    decide +kernel
  intro state hstate
  obtain ⟨accepted, haccepted, hseen⟩ := Option.map_eq_some_iff.mp (hrun state hstate)
  obtain ⟨hclock, hloaded, top, htop, hversion, htargets, delegations, hdelegations, hroles⟩ :=
    of_decide_eq_true hseen
  have hshape : HasAppDelegations top state.1 := by
    simp only [HasAppDelegations, Option.mem_def.mp hdelegations]
    exact isAppDelegation_of_map (hvalid state hstate).2 hroles
  refine ⟨accepted, {
    now := noon
    now_eq := by rw [TufVerifier.now, hclock]
    tufPath := ⟨viewerPath.asStr⟩
    tufPath_eq := viewerPath_new
    top := top
    top_eq := htop
    apps := state.1
    shape := hshape
    app_mem := (hvalid state hstate).1
    under := viewerPath_first
    md := viewerLeaf
    loaded := by rw [hloaded]; rfl
    unexpired := by decide
    description := viewerDescription
    listed := rfl }, ?_, rfl, rfl, rfl, htargets, hversion⟩
  cases haccept : acceptMetadata (mirrorOf (filesOf state.1 state.2))
      (tufUpdates viewerInterchange) viewer.channel viewer.root (.Fixed noon) noon with
  | error e => rw [haccept] at haccepted; cases haccepted
  | ok found => rw [haccept] at haccepted; exact congrArg Except.ok haccepted

/-- When `editor` is added behind `viewer`, the release of `viewer` is found as before, and its
update check answers as before. -/
theorem target_resolves_viewer : ∃ verifier verifier' : TufVerifier,
    verifier.database.trustedTargets ≠ verifier'.database.trustedTargets ∧
    verifier.target noon viewerPath = targetInfo viewerDescription ∧
    verifier'.target noon viewerPath = verifier.target noon viewerPath ∧
    run (mirrorOf (filesOf ["viewer", "editor"] 4)) (tufUpdates viewerInterchange) "7f3c"
        viewer.channel viewer.root (.Fixed noon) noon =
      run (mirrorOf (filesOf ["viewer"] 3)) (tufUpdates viewerInterchange) "7f3c"
        viewer.channel viewer.root (.Fixed noon) noon := by
  obtain ⟨v, p, haccept, happs, hmd, hd, hlist, hversion⟩ :=
    listed_of_viewerStates _ List.mem_cons_self
  obtain ⟨v', p', haccept', happs', hmd', hd', hlist', hversion'⟩ :=
    listed_of_viewerStates _ (List.mem_cons_of_mem _ List.mem_cons_self)
  have hfresh := (p.fresh_of_accepted haccept).2.1
  have hfresh' := (p'.fresh_of_accepted haccept').2.1
  have hfirst : p.apps.head? = some viewer.channel.appId := by rw [happs]; rfl
  have hfirst' : p'.apps.head? = some viewer.channel.appId := by rw [happs']; rfl
  obtain ⟨hanswers, htwo, hchecks⟩ := target_resolves_iff p
  refine ⟨v, v', ?_, ?_, ?_, ?_⟩
  · rw [p.top_eq, p'.top_eq]
    intro hsame
    have hnumber := congrArg TargetsMetadata.version (Option.some.inj hsame)
    rw [hversion, hversion'] at hnumber
    cases hnumber
  · rw [← hd]
    refine hanswers.mpr ⟨hfresh, fun _ hfound => ?_, fun _ => hfirst⟩
    rw [hlist] at hfound
    cases hfound
  · refine (htwo p' (hd'.trans hd.symm) hfresh hfresh' ?_ ?_).mpr (iff_of_true hfirst hfirst')
    · rw [hlist]
      rfl
    · rw [hlist']
      rfl
  · refine (hchecks rfl haccept).1 p' haccept' (hmd'.trans hmd.symm) (fun _ _ => ?_) ?_
      (iff_of_true hfirst hfirst')
    · rw [hlist, hlist']
    · exact ⟨fun digest => (fetch_payload (List.mem_cons_of_mem _ List.mem_cons_self)).trans
        (fetch_payload List.mem_cons_self).symm, rfl, rfl⟩

/-- Registered second, an application is not found although its accepted role metadata lists
the path. -/
theorem target_lost_behind_editor :
    ¬ ∀ (verifier : TufVerifier) (systemTime : Int) (path : TargetPath) (appId : String)
      (p : Listed verifier systemTime path appId),
      Database.Fresh verifier.database p.now p.top → p.top.targets = [] →
      verifier.target systemTime path = targetInfo p.description := by
  intro hclaim
  let p := viewerListed ["editor", "viewer"] (by decide) (by decide) (by decide)
  have hfound := hclaim _ 0 viewerPath "viewer" p (fresh_twoApps _ _) rfl
  have hfirst := (p.target_eq_iff.mp hfound).first rfl
  exact absurd hfirst (by decide)

end DistPlatform.Client
