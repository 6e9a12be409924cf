import DistPlatform.Core.Closing
import DistPlatform.Core.Retry

/-!
# What an error leaves behind

An operation edits several roles in turn. Each edit learns at its own close whether the backend
holds keys enough for its role, and by then the roles before it have been written; `add_app` has
replaced a policy even before that.

## Main definitions

* `Unchanged`, `Atomic` — the state before the call, and an operation whose errors leave it so.
* `Starved` — an edit that comes to its close and finds too few keys.
* `Call.Stops` — the operation runs out of keys after its first change.
-/

namespace DistPlatform.Core

open DistPlatform

variable {β : Type}

/-- The metadata directory and the memory of the instance are as before. -/
structure Unchanged (s s' : Session β) : Prop where
  metadata : s'.dir.metadata = s.dir.metadata
  versions : ∀ role, s'.repo.versions.get role = s.repo.versions.get role
  policies : ∀ role, s'.repo.policies.get role = s.repo.policies.get role
  appRoles : ∀ role, role ∈ s'.repo.appRoles ↔ role ∈ s.repo.appRoles

/-- Whatever `PublicationError` the operation raises, it has changed nothing. -/
def Atomic (out : Outside β) (call : Call β) (s : Session β) : Prop :=
  ∀ n e s' rest, call.perform out s n = .raised e s' rest → IsPublicationError e → Unchanged s s'

/-! ## Running out of keys -/

/-- The edit comes to its close. -/
def Closes (s : Session β) (role : String)
    (change : Metadata → Except RepositoryError (Option Signed)) : Prop :=
  ∃ md signed, s.opens role = .ok md ∧ change md = .ok (some signed)

/-- The edit is aborted. -/
def Skips (s : Session β) (role : String)
    (change : Metadata → Except RepositoryError (Option Signed)) : Prop :=
  ∃ md, s.opens role = .ok md ∧ change md = .ok none

/-- The edit comes to its close, where the backend holds too few keys. -/
def Starved (s : Session β) (role : String)
    (change : Metadata → Except RepositoryError (Option Signed)) : Prop :=
  Closes s role change ∧ ¬ Keyed role s

/-- The change of `do_snapshot`. -/
def snapshotChange (out : Outside β) (reported : Table String Nat) (md : Metadata) :
    Except RepositoryError (Option Signed) :=
  match md.signed with
  | .snapshot recorded =>
    match out.tuf.snapshotMeta (!md.signatures.isEmpty) recorded reported with
    | .ok metas => .ok (metas.map .snapshot)
    | .error e => .error (.TufError e)
  | _ => .error .AssertionError

/-- The change of `do_timestamp`. -/
def timestampChange (out : Outside β) (reported : Nat) (md : Metadata) :
    Except RepositoryError (Option Signed) :=
  match md.signed with
  | .timestamp recorded =>
    match out.tuf.timestampSnapshot (!md.signatures.isEmpty) recorded reported with
    | .ok version => .ok (version.map .timestamp)
    | .error e => .error (.TufError e)
  | _ => .error .AssertionError

/-- `publish` runs out of keys, where the targets roles have the reported versions. -/
def PublishStops (out : Outside β) (reported : Table String Nat) (s : Session β) : Prop :=
  Starved s SNAPSHOT (snapshotChange out reported) ∨
    Closes s SNAPSHOT (snapshotChange out reported) ∧
      Starved s TIMESTAMP (timestampChange out (s.repo.version SNAPSHOT + 1)) ∨
    Skips s SNAPSHOT (snapshotChange out reported) ∧
      Starved s TIMESTAMP (timestampChange out s.snapshotInfo)

/-- The role has its next version. -/
def Session.bump (role : String) (s : Session β) : Session β :=
  s.setVersion role (s.repo.version role + 1)

def OpensTargets (s : Session β) (role : String) : Prop :=
  ∃ md targets, s.opens role = .ok md ∧ md.signed = .targets targets

/-- A target is listed in the role, and then its publication runs out of keys. -/
def TargetStops (out : Outside β) (role : String) (s : Session β) : Prop :=
  OpensTargets s role ∧ Keyed role s ∧ PublishStops out (s.bump role).targetsInfos s

/-- `initialize` writes the root, and then runs out of keys. -/
def InitialiseStops (out : Outside β) (s : Session β) : Prop :=
  s.repo.version ROOT = 0 ∧ (∀ row ∈ TOP_LEVEL_POLICIES, s.repo.backend.keyids row.1 ≠ []) ∧
    Keyed ROOT s ∧ (∃ md, s.opens TARGETS = .ok md) ∧
    (Keyed TARGETS s → PublishStops out ((s.bump ROOT).bump TARGETS).targetsInfos s)

/-- `add_app` replaces the policy and finds too few keys; or it has written the delegation, and
then runs out of keys. -/
def AddAppStops (out : Outside β) (policy : RolePolicy) (s : Session β) : Prop :=
  s.repo.policies.get policy.name ≠ some policy ∧
      (s.repo.backend.keyids policy.name = [] ∨ OpensTargets s TARGETS ∧ ¬ Keyed TARGETS s) ∨
    s.repo.backend.keyids policy.name ≠ [] ∧ OpensTargets s TARGETS ∧ Keyed TARGETS s ∧
      (∃ md, s.opens policy.name = .ok md) ∧
      PublishStops out (((s.bump TARGETS).addAppRole policy.name).bump policy.name).targetsInfos s

/-- The operation runs out of keys after its first change. -/
def Call.Stops (out : Outside β) (s : Session β) : Call β → Prop
  | .initialise => InitialiseStops out s
  | .addApp appId critical =>
    ∃ policy, appRolePolicy appId critical = .ok policy ∧ AddAppStops out policy s
  | .addRelease key _ info => info.version = key.version ∧
    ∃ role ∈ s.repo.appRoles, appRoleName key.appId = .ok role ∧ TargetStops out role s
  | .setCurrent key => ∃ role ∈ s.repo.appRoles, appRoleName key.appId = .ok role ∧
    (∃ md targets, s.opens role = .ok md ∧ md.signed = .targets targets ∧
      (targets.targets.get key.path).isSome) ∧
    (∃ pointer, CurrentRelease.make key.path key.version = .ok pointer) ∧ TargetStops out role s

/-! ## What two states have in common -/

/-- A role opens the same, at the same version, and has keys in both or in neither. -/
structure Alike (role : String) (s s' : Session β) : Prop where
  opens : s'.opens role = s.opens role
  versions : s'.repo.versions.get role = s.repo.versions.get role
  keyed : Keyed role s' ↔ Keyed role s

section Alike

variable {out : Outside β} {s s' s'' : Session β} {role : String} {roles : List String}
  {change : Metadata → Except RepositoryError (Option Signed)} {reported : Table String Nat}

theorem Alike.trans (h : Alike role s s') (h' : Alike role s' s'') : Alike role s s'' :=
  ⟨h'.opens.trans h.opens, h'.versions.trans h.versions, h'.keyed.trans h.keyed⟩

theorem Leaves.alike (h : Leaves roles s s') (hrole : role ∉ roles) : Alike role s s' :=
  ⟨h.opens role hrole, h.versions role hrole, h.keyed_iff role⟩

theorem alike_setPolicy {policy : RolePolicy} (hne : role ≠ policy.name) :
    Alike role s (s.setPolicy policy) := by
  refine ⟨rfl, rfl, ?_⟩
  unfold Keyed
  rw [Session.setPolicy, Table.get_put_of_ne _ _ hne]

theorem alike_addAppRole (name : String) : Alike role s (s.addAppRole name) := ⟨rfl, rfl, .rfl⟩

theorem Alike.version (h : Alike role s s') : s'.repo.version role = s.repo.version role := by
  rw [Instance.version, Instance.version, h.versions]

theorem Alike.closes_iff (h : Alike role s s') :
    Closes s' role change ↔ Closes s role change := by
  unfold Closes
  rw [h.opens]

theorem Alike.skips_iff (h : Alike role s s') : Skips s' role change ↔ Skips s role change := by
  unfold Skips
  rw [h.opens]

theorem Alike.starved_iff (h : Alike role s s') :
    Starved s' role change ↔ Starved s role change :=
  and_congr h.closes_iff (not_congr h.keyed)

theorem Alike.opensTargets_iff (h : Alike role s s') :
    OpensTargets s' role ↔ OpensTargets s role := by
  unfold OpensTargets
  rw [h.opens]

theorem publishStops_congr (hsnapshot : Alike SNAPSHOT s s') (htimestamp : Alike TIMESTAMP s s') :
    PublishStops out reported s' ↔ PublishStops out reported s := by
  have hinfo : s'.snapshotInfo = s.snapshotInfo := by
    rw [Session.snapshotInfo, Session.snapshotInfo, hsnapshot.versions]
  unfold PublishStops
  rw [hsnapshot.starved_iff, hsnapshot.closes_iff, hsnapshot.skips_iff, hsnapshot.version,
    hinfo, htimestamp.starved_iff, htimestamp.starved_iff]

/-- What is reported of the targets roles depends on their versions only. -/
theorem targetsInfos_congr (hversions : ∀ role, s'.repo.version role = s.repo.version role)
    (happs : s'.repo.appRoles = s.repo.appRoles) : s'.targetsInfos = s.targetsInfos := by
  unfold Session.targetsInfos
  rw [happs]
  refine List.filterMap_congr fun role _ => ?_
  have hversion := hversions role
  unfold Instance.version at hversion
  -- no row for version 0, remembered or not
  cases hget' : s'.repo.versions.get role with
  | none =>
    cases hget : s.repo.versions.get role with
    | none => rfl
    | some version =>
      obtain rfl : 0 = version := by simpa [hget, hget'] using hversion
      rfl
  | some version' =>
    cases hget : s.repo.versions.get role with
    | none =>
      obtain rfl : version' = 0 := by simpa [hget, hget'] using hversion
      rfl
    | some version =>
      obtain rfl : version' = version := by simpa [hget, hget'] using hversion
      rfl

theorem version_bump (role other : String) :
    (s.bump role).repo.version other =
      if other = role then s.repo.version role + 1 else s.repo.version other :=
  version_setVersion s role other _

theorem ClosedAs.version_eq {signed : Signed} (h : ClosedAs role signed s s') (other : String) :
    s'.repo.version other = (s.bump role).repo.version other := by
  rw [version_bump]
  split
  next heq => rw [heq, h.version]
  next hne => exact (h.toLeaves.alike (by simpa using hne)).version

theorem ClosedAs.targetsInfos {signed : Signed} (h : ClosedAs role signed s s') :
    s'.targetsInfos = (s.bump role).targetsInfos :=
  targetsInfos_congr h.version_eq h.appRoles

/-- The version of a closed role tells the states apart from then on. -/
theorem ClosedAs.versions_ne {signed : Signed} (h : ClosedAs role signed s s')
    (h' : Alike role s' s'') : s''.repo.versions.get role ≠ s.repo.versions.get role := by
  intro hsame
  have hversion := h.version
  rw [← h'.version, Instance.version, hsame, ← Instance.version] at hversion
  omega

end Alike

/-! ## Where each step ends -/

section Steps

variable {out : Outside β} {s : Session β} {role : String}
  {change : Metadata → Except RepositoryError (Option Signed)}

/-- An edit whose change raises no `PublicationError` raises one exactly when it is starved. -/
theorem edit_decides (hquiet : ∀ md e, change md = .error e → ¬ IsPublicationError e) :
    (edit out role change).Ends s
      (fun _ s' => Skips s role change ∧ s' = s ∨
        Closes s role change ∧ ∃ signed, ClosedAs role signed s s')
      (fun e s' => s' = s ∧ (Starved s role change ∧ IsPublicationError e ∨
        ¬ Closes s role change ∧ ¬ Skips s role change ∧ ¬ IsPublicationError e))
      (fun _ => True) := by
  refine (edit_ends change).mono ?_ ?_ fun _ h => h
  · rintro - s' ⟨md, hopens, ⟨hnone, rfl⟩ | ⟨signed, hsome, hclosed⟩⟩
    · exact .inl ⟨⟨md, hopens, hnone⟩, rfl⟩
    · exact .inr ⟨⟨md, signed, hopens, hsome⟩, signed, hclosed⟩
  · rintro e s' ⟨rfl, herror | ⟨md, hopens, herror | ⟨signed, hsome, hkeys, hpublication⟩⟩⟩
    · refine ⟨rfl, .inr ⟨?_, ?_, ?_⟩⟩
      · rintro ⟨md, signed, hopens, -⟩
        cases herror.symm.trans hopens
      · rintro ⟨md, hopens, -⟩
        cases herror.symm.trans hopens
      · rintro ⟨message, rfl⟩
        obtain ⟨name, hname⟩ := opens_error herror
        cases hname
    · refine ⟨rfl, .inr ⟨?_, ?_, hquiet md e herror⟩⟩
      · rintro ⟨md', signed, hopens', hsome⟩
        obtain rfl : md = md' := Except.ok.inj (hopens.symm.trans hopens')
        cases herror.symm.trans hsome
      · rintro ⟨md', hopens', hnone⟩
        obtain rfl : md = md' := Except.ok.inj (hopens.symm.trans hopens')
        cases herror.symm.trans hnone
    · exact ⟨rfl, .inl ⟨⟨⟨md, signed, hopens, hsome⟩, hkeys⟩, hpublication⟩⟩

theorem snapshotChange_quiet {reported : Table String Nat} (md : Metadata) (e : RepositoryError)
    (h : snapshotChange out reported md = .error e) : ¬ IsPublicationError e := by
  rintro ⟨message, rfl⟩
  unfold snapshotChange at h
  grind

theorem timestampChange_quiet {reported : Nat} (md : Metadata) (e : RepositoryError)
    (h : timestampChange out reported md = .error e) : ¬ IsPublicationError e := by
  rintro ⟨message, rfl⟩
  unfold timestampChange at h
  grind

theorem onTargets_quiet {f : Targets → Targets} (md : Metadata) (e : RepositoryError)
    (h : onTargets f md = .error e) : ¬ IsPublicationError e := by
  rintro ⟨message, rfl⟩
  unfold onTargets at h
  grind

theorem unchanged_quiet (md : Metadata) (e : RepositoryError) (h : unchanged md = .error e) :
    ¬ IsPublicationError e :=
  nomatch h

theorem closes_onTargets {f : Targets → Targets} :
    Closes s role (onTargets f) ↔ OpensTargets s role := by
  constructor
  · rintro ⟨md, signed, hopens, hsome⟩
    obtain ⟨targets, hmd, -⟩ := onTargets_eq_ok hsome
    exact ⟨md, targets, hopens, hmd⟩
  · rintro ⟨md, targets, hopens, hmd⟩
    exact ⟨md, .targets (f targets), hopens, by rw [onTargets, hmd]⟩

theorem Skips.not_closes (h : Skips s role change) : ¬ Closes s role change := by
  rintro ⟨md, signed, hopens, hsome⟩
  obtain ⟨md', hopens', hnone⟩ := h
  obtain rfl : md = md' := Except.ok.inj (hopens.symm.trans hopens')
  cases hsome.symm.trans hnone

theorem not_skips_onTargets {f : Targets → Targets} : ¬ Skips s role (onTargets f) := by
  rintro ⟨md, -, hnone⟩
  unfold onTargets at hnone
  grind

theorem closes_unchanged : Closes s role unchanged ↔ ∃ md, s.opens role = .ok md :=
  ⟨fun ⟨md, _, hopens, _⟩ => ⟨md, hopens⟩, fun ⟨md, hopens⟩ => ⟨md, md.signed, hopens, rfl⟩⟩

theorem not_skips_unchanged : ¬ Skips s role unchanged := fun ⟨_, _, hnone⟩ => nomatch hnone

/-- `publish` raises a `PublicationError` exactly when it runs out of keys. -/
theorem publish_decides :
    (publish out).Ends s (fun _ _ => ¬ PublishStops out s.targetsInfos s)
      (fun e s' => Leaves [SNAPSHOT, TIMESTAMP] s s' ∧
        (IsPublicationError e ↔ PublishStops out s.targetsInfos s)) (fun _ => True) := by
  refine .bind (.read_bind ((edit_decides snapshotChange_quiet).mono (fun _ _ h => h) ?_
    fun _ h => h)) ?_
  · rintro e s' ⟨rfl, ⟨hstarved, hpublication⟩ | ⟨hcloses, hskips, hother⟩⟩
    · exact ⟨.refl _, iff_of_true hpublication (.inl hstarved)⟩
    · refine ⟨.refl _, iff_of_false hother ?_⟩
      rintro (hstarved | ⟨hcloses', -⟩ | ⟨hskips', -⟩)
      · exact hcloses hstarved.1
      · exact hcloses hcloses'
      · exact hskips hskips'
  · rintro - s₁ hsnapshot
    -- the timestamp decides, with the version of the snapshot that the first edit has left
    have hstops : Leaves [SNAPSHOT, TIMESTAMP] s s₁ ∧
        (Starved s₁ TIMESTAMP (timestampChange out s₁.snapshotInfo) ↔
          PublishStops out s.targetsInfos s) := by
      obtain ⟨hskips, rfl⟩ | ⟨hcloses, signed, hclosed⟩ := hsnapshot
      · refine ⟨.refl _, fun h => .inr (.inr ⟨hskips, h⟩), ?_⟩
        rintro (hstarved | ⟨hcloses, -⟩ | ⟨-, h⟩)
        · exact absurd hstarved.1 hskips.not_closes
        · exact absurd hcloses hskips.not_closes
        · exact h
      · have hinfo : s₁.snapshotInfo = s.repo.version SNAPSHOT + 1 := by
          have hversion := hclosed.version
          unfold Instance.version at hversion ⊢
          unfold Session.snapshotInfo
          cases hget : s₁.repo.versions.get SNAPSHOT with
          | none => simp [hget] at hversion
          | some version => simpa [hget] using hversion
        have halike : Alike TIMESTAMP s s₁ := hclosed.toLeaves.alike (by decide)
        have hleaves : Leaves [TIMESTAMP] s₁ s₁ := .refl s₁
        refine ⟨hclosed.toLeaves.trans hleaves, ?_⟩
        rw [hinfo, halike.starved_iff]
        refine ⟨fun h => .inr (.inl ⟨hcloses, h⟩), ?_⟩
        rintro (hstarved | ⟨-, h⟩ | ⟨hskips, -⟩)
        · exact absurd hclosed.keyed hstarved.2
        · exact h
        · exact absurd hcloses hskips.not_closes
    obtain ⟨hleaves, hiff⟩ := hstops
    rw [← hiff]
    refine .read_bind ((edit_decides timestampChange_quiet).mono ?_ ?_ fun _ h => h)
    · rintro - s₂ (⟨hskips, -⟩ | ⟨-, signed, hclosed⟩) hstarved
      · exact hskips.not_closes hstarved.1
      · exact hstarved.2 hclosed.keyed
    · rintro e s₂ ⟨rfl, ⟨hstarved, hpublication⟩ | ⟨hcloses, -, hother⟩⟩
      · exact ⟨hleaves, iff_of_true hpublication hstarved⟩
      · exact ⟨hleaves, iff_of_false hother fun h => hcloses h.1⟩

/-- A process from `s` raises a `PublicationError` after a change exactly where `stops`. -/
def Decides {α : Type} (m : Work β α) (s₀ s : Session β) (stops : Prop) : Prop :=
  m.Ends s (fun _ _ => ¬ stops)
    (fun e s' => (IsPublicationError e ∧ ¬ Unchanged s₀ s') ↔ stops) (fun _ => True)

/-- Where something has changed for good, publishing decides. -/
theorem publish_after {s₀ : Session β} {stops : Prop}
    (hchanged : ∀ s', Leaves [SNAPSHOT, TIMESTAMP] s s' → ¬ Unchanged s₀ s')
    (hstops : PublishStops out s.targetsInfos s ↔ stops) : Decides (publish out) s₀ s stops := by
  refine publish_decides.mono (fun _ _ h => mt hstops.mpr h) ?_ fun _ h => h
  rintro e s' ⟨hleaves, hiff⟩
  rw [← hstops, ← hiff]
  exact and_iff_left (hchanged s' hleaves)

theorem publishTarget_decides (happ : AppRole role) (path : String) (payload : β)
    (info : ReleaseInfo) :
    Decides (publishTarget out role path payload info) s s (TargetStops out role s) := by
  have hsnapshot : role ≠ SNAPSHOT := happ.ne (by decide)
  have htimestamp : role ≠ TIMESTAMP := happ.ne (by decide)
  refine .bind (Q := fun _ s₁ => s₁.repo = s.repo ∧ s₁.dir.metadata = s.dir.metadata)
    (.write trivial ⟨rfl, rfl⟩) ?_
  rintro - ⟨repo, dir⟩ ⟨rfl, hmetadata⟩
  have hopens (other : String) : Session.opens ⟨s.repo, dir⟩ other = s.opens other := by
    unfold Session.opens Instance.openRole
    rw [hmetadata]
  have halike (other : String) : Alike other s ⟨s.repo, dir⟩ := ⟨hopens other, rfl, .rfl⟩
  refine .bind ((edit_decides onTargets_quiet).mono (fun _ _ h => h) ?_ fun _ h => h) ?_
  · rintro e s' ⟨rfl, ⟨hstarved, hpublication⟩ | ⟨hcloses, -, hother⟩⟩
    · refine iff_of_false (fun h => h.2 ⟨hmetadata, fun _ => rfl, fun _ => rfl, fun _ => .rfl⟩) ?_
      exact fun h => hstarved.2 h.2.1
    · refine iff_of_false (fun h => hother h.1) fun h => hcloses ?_
      exact closes_onTargets.mpr ((halike role).opensTargets_iff.mpr h.1)
  · rintro - s₁ (⟨hskips, -⟩ | ⟨hcloses, signed, hclosed⟩)
    · exact absurd hskips not_skips_onTargets
    · have hother {other : String} (hne : other ≠ role) : Alike other s s₁ :=
        (halike other).trans (hclosed.toLeaves.alike (by simpa using hne))
      refine publish_after (fun s' hleaves hsame => ?_) ?_
      · exact hclosed.versions_ne (hleaves.alike (by simp [hsnapshot, htimestamp]))
          (hsame.versions role)
      · rw [publishStops_congr (hother hsnapshot.symm) (hother htimestamp.symm),
          hclosed.targetsInfos]
        refine ⟨fun h => ⟨?_, hclosed.keyed, h⟩, fun h => h.2.2⟩
        exact (halike role).opensTargets_iff.mp (closes_onTargets.mp hcloses)

end Steps

/-! ## Where each operation ends -/

section Operations

variable {out : Outside β} {s : Session β} {role : String}

theorem Decides.andReturn {α γ : Type} {m : Work β α} {s₀ : Session β} {stops : Prop}
    (h : Decides m s₀ s stops) (value : α → γ) :
    Decides (m >>= fun a => pure (value a)) s₀ s stops :=
  .bind h fun _ _ hstops => .pure hstops

/-- What is raised before anything has changed. -/
theorem decides_unchanged {e : RepositoryError} {stops : Prop} (hstops : ¬ stops) :
    (IsPublicationError e ∧ ¬ Unchanged s s) ↔ stops :=
  iff_of_false (fun h => h.2 ⟨rfl, fun _ => rfl, fun _ => rfl, fun _ => .rfl⟩) hstops

theorem delegatedRole_ends (appId : String) :
    (delegatedRole appId : Work β String).Ends s
      (fun role s' => s' = s ∧ appRoleName appId = .ok role ∧ role ∈ s.repo.appRoles)
      (fun _ s' => s' = s ∧ ∀ role ∈ s.repo.appRoles, appRoleName appId ≠ .ok role)
      (fun _ => True) := by
  refine .lift_bind (fun e he => ⟨rfl, fun role _ hrole => ?_⟩) fun role hrole => .read_bind
    (.lift_bind (fun e he => ⟨rfl, fun role' hmem hrole' => ?_⟩) fun _ hmem => .pure ?_)
  · rw [hrole] at he
    cases he
  · rw [Fallible.mapError_eq_ok] at hrole
    obtain rfl : role = role' := Except.ok.inj (hrole.symm.trans hrole')
    exact (Fallible.ensure_eq_error.mp he).1 hmem
  · exact ⟨rfl, Fallible.mapError_eq_ok.mp hrole, Fallible.ensure_eq_ok.mp hmem⟩

theorem addRelease_decides (key : TargetKey) (payload : β) (info : ReleaseInfo) :
    Decides (addRelease out key payload info) s s
      (Call.Stops out s (.addRelease key payload info)) := by
  refine .lift_bind (fun e he => decides_unchanged fun ⟨hversion, _⟩ => ?_) fun _ hversion => ?_
  · exact (Fallible.ensure_eq_error.mp he).1 hversion
  refine .bind ((delegatedRole_ends key.appId).mono (fun _ _ h => h) ?_ fun _ h => h) ?_
  · rintro e s' ⟨rfl, hnone⟩
    exact decides_unchanged fun ⟨_, role, hmem, hrole, _⟩ => hnone role hmem hrole
  rintro role s' ⟨rfl, hrole, hmem⟩
  have hiff : Call.Stops out s' (.addRelease key payload info) ↔ TargetStops out role s' := by
    refine ⟨fun ⟨_, role', _, hrole', hstops⟩ => ?_, fun hstops =>
      ⟨Fallible.ensure_eq_ok.mp hversion, role, hmem, hrole, hstops⟩⟩
    obtain rfl : role = role' := Except.ok.inj (hrole.symm.trans hrole')
    exact hstops
  rw [hiff]
  exact (publishTarget_decides ⟨_, hrole⟩ key.path payload info).andReturn fun _ => key.path

theorem setCurrent_decides (key : TargetKey) :
    Decides (setCurrent out key) s s (Call.Stops out s (.setCurrent key)) := by
  refine .bind ((delegatedRole_ends key.appId).mono (fun _ _ h => h) ?_ fun _ h => h) ?_
  · rintro e s' ⟨rfl, hnone⟩
    exact decides_unchanged fun ⟨role, hmem, hrole, _⟩ => hnone role hmem hrole
  rintro role s' ⟨rfl, hrole, hmem⟩
  have hiff : Call.Stops out s' (.setCurrent key) ↔
      (∃ md targets, s'.opens role = .ok md ∧ md.signed = .targets targets ∧
        (targets.targets.get key.path).isSome) ∧
      (∃ pointer, CurrentRelease.make key.path key.version = .ok pointer) ∧
      TargetStops out role s' := by
    refine ⟨fun ⟨role', _, hrole', hstops⟩ => ?_, fun hstops => ⟨role, hmem, hrole, hstops⟩⟩
    obtain rfl : role = role' := Except.ok.inj (hrole.symm.trans hrole')
    exact hstops
  rw [hiff]
  refine .read_bind (.lift_bind (fun e he => decides_unchanged ?_) fun md hopens => ?_)
  · rintro ⟨⟨md, -, hopens, -⟩, -⟩
    cases he.symm.trans hopens
  have hmd {md' : Metadata} (hopens' : s'.opens role = .ok md') : md = md' :=
    Except.ok.inj (hopens.symm.trans hopens')
  split
  next targets htargets =>
    refine .lift_bind (fun e he => decides_unchanged ?_) fun _ hlisted =>
      .lift_bind (fun e he => decides_unchanged ?_) fun pointer hpointer => ?_
    · rintro ⟨⟨md', targets', hopens', hsigned', hsome⟩, -⟩
      obtain rfl := hmd hopens'
      obtain rfl : targets = targets' := Signed.targets.inj (htargets.symm.trans hsigned')
      exact (Fallible.ensure_eq_error.mp he).1 hsome
    · rintro ⟨-, ⟨pointer, hpointer⟩, -⟩
      rw [hpointer] at he
      cases he
    · rw [and_iff_right ⟨md, targets, hopens, htargets, Fallible.ensure_eq_ok.mp hlisted⟩,
        and_iff_right ⟨pointer, Fallible.mapError_eq_ok.mp hpointer⟩]
      exact (publishTarget_decides ⟨_, hrole⟩ _ _ _).andReturn fun _ => key.channelKey.pointerPath
  next hother =>
    refine .raise (decides_unchanged ?_)
    rintro ⟨⟨md', targets, hopens', hsigned, -⟩, -⟩
    obtain rfl := hmd hopens'
    exact hother targets hsigned

theorem addApp_decides (appId : String) (critical : Bool) :
    Decides (addApp out appId critical) s s (Call.Stops out s (.addApp appId critical)) := by
  refine .lift_bind (fun e he => decides_unchanged ?_) fun policy hpolicy => ?_
  · rintro ⟨policy, hpolicy, -⟩
    rw [hpolicy] at he
    cases he
  rw [Fallible.mapError_eq_ok] at hpolicy
  have hiff : Call.Stops out s (.addApp appId critical) ↔ AddAppStops out policy s := by
    refine ⟨fun ⟨policy', hpolicy', hstops⟩ => ?_, fun hstops => ⟨policy, hpolicy, hstops⟩⟩
    obtain rfl : policy = policy' := Except.ok.inj (hpolicy.symm.trans hpolicy')
    exact hstops
  rw [hiff]
  obtain ⟨hrole, hthreshold, -⟩ := appRolePolicy_eq_ok hpolicy
  have happ : AppRole policy.name := ⟨_, hrole⟩
  have htargets : TARGETS ≠ policy.name := (happ.ne (by decide)).symm
  have hregistered : Alike TARGETS s (s.setPolicy policy) := alike_setPolicy htargets
  have hpolicies : Unchanged s (s.setPolicy policy) ↔
      s.repo.policies.get policy.name = some policy := by
    refine ⟨fun h => ?_, fun h => ⟨rfl, fun _ => rfl, fun role => ?_, fun _ => .rfl⟩⟩
    · rw [← h.policies, Session.setPolicy, Table.get_put_self]
    · rw [Session.setPolicy, Table.get_put]
      split
      next heq => rw [heq, h]
      next => rfl
  refine .update_bind (.read_bind (.lift_bind (fun e he => ?_) fun _ hkeys => ?_))
  · obtain ⟨hempty, rfl⟩ := Fallible.ensure_eq_error.mp he
    rw [and_iff_right ⟨_, rfl⟩, hpolicies]
    exact ⟨fun hne => .inl ⟨hne, .inl (not_not.mp hempty)⟩, fun h =>
      h.elim (fun h => h.1) fun h => absurd h.1 hempty⟩
  have hkeys : s.repo.backend.keyids policy.name ≠ [] := Fallible.ensure_eq_ok.mp hkeys
  refine .bind ((edit_decides onTargets_quiet).mono (fun _ _ h => h) ?_ fun _ h => h) ?_
  · rintro e s' ⟨rfl, ⟨⟨hcloses, hfew⟩, hpublication⟩ | ⟨hcloses, -, hother⟩⟩
    · have hopens := hregistered.opensTargets_iff.mp (closes_onTargets.mp hcloses)
      have hfew : ¬ Keyed TARGETS s := mt hregistered.keyed.mpr hfew
      rw [and_iff_right hpublication, hpolicies]
      exact ⟨fun hne => .inl ⟨hne, .inr ⟨hopens, hfew⟩⟩, fun h =>
        h.elim (fun h => h.1) fun h => absurd h.2.2.1 hfew⟩
    · have hopens : ¬ OpensTargets s TARGETS := fun h =>
        hcloses (closes_onTargets.mpr (hregistered.opensTargets_iff.mpr h))
      exact iff_of_false (fun h => hother h.1) fun h =>
        h.elim (fun h => h.2.elim hkeys fun h => hopens h.1) fun h => hopens h.2.1
  rintro - s₂ (⟨hskips, -⟩ | ⟨hcloses, signed, hclosed⟩)
  · exact absurd hskips not_skips_onTargets
  have hopens := hregistered.opensTargets_iff.mp (closes_onTargets.mp hcloses)
  have hkeyed : Keyed TARGETS s := hregistered.keyed.mp hclosed.keyed
  have hrest : AddAppStops out policy s ↔ (∃ md, s.opens policy.name = .ok md) ∧
      PublishStops out
        (((s.bump TARGETS).addAppRole policy.name).bump policy.name).targetsInfos s :=
    ⟨fun h => h.elim (fun h => (h.2.elim hkeys fun h => h.2 hkeyed).elim) fun h => h.2.2.2,
      fun h => .inr ⟨hkeys, hopens, hkeyed, h⟩⟩
  rw [hrest]
  refine .update_bind ?_
  have hopens₂ : (s₂.addAppRole policy.name).opens policy.name = s.opens policy.name :=
    hclosed.opens policy.name (by simpa using htargets.symm)
  have hkeyed₂ : Keyed policy.name (s₂.addAppRole policy.name) := by
    refine ⟨policy, ?_, ?_⟩
    · exact (congrArg (·.get policy.name) hclosed.policies).trans (Table.get_put_self _ _ _)
    · rw [hthreshold]
      change 1 ≤ (s₂.repo.backend.keyids policy.name).length
      rw [hclosed.backend]
      exact List.length_pos_iff.mpr hkeys
  refine .bind ((edit_decides unchanged_quiet).mono (fun _ _ h => h) ?_ fun _ h => h) ?_
  · rintro e s' ⟨rfl, ⟨⟨-, hfew⟩, -⟩ | ⟨hcloses, -, hother⟩⟩
    · exact absurd hkeyed₂ hfew
    · rw [closes_unchanged, hopens₂] at hcloses
      exact iff_of_false (fun h => hother h.1) fun h => hcloses h.1
  rintro - s₃ (⟨hskips, -⟩ | ⟨hcloses', signed', hclosed'⟩)
  · exact absurd hskips not_skips_unchanged
  rw [closes_unchanged, hopens₂] at hcloses'
  have hother {top : String} (hne : top ≠ TARGETS) (hname : top ≠ policy.name) : Alike top s s₃ :=
    (alike_setPolicy hname).trans <| (hclosed.toLeaves.alike (by simpa using hne)).trans <|
      (alike_addAppRole _).trans (hclosed'.toLeaves.alike (by simpa using hname))
  have hreported : s₃.targetsInfos =
      (((s.bump TARGETS).addAppRole policy.name).bump policy.name).targetsInfos := by
    refine hclosed'.targetsInfos.trans (targetsInfos_congr (fun role => ?_) ?_)
    · rw [version_bump, version_bump]
      congr 1
      · exact congrArg (· + 1) (hclosed.version_eq policy.name)
      · exact hclosed.version_eq role
    · exact congrArg (·.insert policy.name) hclosed.appRoles
  refine Decides.andReturn (publish_after (fun s' hleaves hsame => ?_) ?_) fun _ => policy.name
  · have hsince : Alike TARGETS s₂ s' := (alike_addAppRole _).trans <|
      (hclosed'.toLeaves.alike (by simpa using htargets)).trans (hleaves.alike (by decide))
    exact hclosed.versions_ne hsince (hsame.versions TARGETS)
  · rw [publishStops_congr (hother (by decide) (happ.ne (by decide)).symm)
      (hother (by decide) (happ.ne (by decide)).symm), hreported, and_iff_right hcloses']

theorem rootWithRole_isOk {backend : SignerBackend} {root : Root} {policy : RolePolicy} :
    (∃ root', rootWithRole backend root policy = .ok root') ↔
      backend.keyids policy.name ≠ [] := by
  unfold rootWithRole
  cases backend.keyids policy.name <;> simp

theorem foldlM_rootWithRole_isOk {backend : SignerBackend} (policies : List RolePolicy)
    (root : Root) :
    (∃ root', policies.foldlM (rootWithRole backend) root = .ok root') ↔
      ∀ policy ∈ policies, backend.keyids policy.name ≠ [] := by
  induction policies generalizing root with
  | nil => exact iff_of_true ⟨root, rfl⟩ (by simp)
  | cons policy policies ih =>
    simp only [List.foldlM_cons, Fallible.bind_eq_ok]
    rw [List.forall_mem_cons, ← @rootWithRole_isOk backend root]
    constructor
    · rintro ⟨root', first, hfirst, hrest⟩
      exact ⟨⟨first, hfirst⟩, (ih first).mp ⟨root', hrest⟩⟩
    · rintro ⟨⟨first, hfirst⟩, hall⟩
      obtain ⟨root', hrest⟩ := (ih first).mpr hall
      exact ⟨root', first, hfirst, hrest⟩

/-- The first root comes to its close exactly where every top-level role has a key. -/
theorem closes_rootChange (hfresh : s.repo.version ROOT = 0) {backend : SignerBackend} :
    Closes s ROOT (rootChange backend) ↔
      ∀ row ∈ TOP_LEVEL_POLICIES, backend.keyids row.1 ≠ [] := by
  have hnames : (∀ policy ∈ TOP_LEVEL_POLICIES.map (·.2), backend.keyids policy.name ≠ []) ↔
      ∀ row ∈ TOP_LEVEL_POLICIES, backend.keyids row.1 ≠ [] := by
    rw [List.forall_mem_map]
    refine forall₂_congr fun row hrow => ?_
    rw [(by decide : ∀ row ∈ TOP_LEVEL_POLICIES, row.2.name = row.1) row hrow]
  have hopens : s.opens ROOT = .ok (Metadata.initial ROOT) := by
    rw [Session.opens, Instance.openRole, if_pos hfresh]
  rw [← hnames]
  constructor
  · rintro ⟨md, signed, hopens', hsome⟩
    obtain rfl : Metadata.initial ROOT = md := Except.ok.inj (hopens.symm.trans hopens')
    obtain ⟨root, hroot, -⟩ := Fallible.bind_eq_ok.mp hsome
    exact (foldlM_rootWithRole_isOk _ _).mp ⟨root, hroot⟩
  · intro hall
    obtain ⟨root, hroot⟩ := (foldlM_rootWithRole_isOk _ _).mpr hall
    exact ⟨_, .root root, hopens, Fallible.bind_eq_ok.mpr ⟨root, hroot, rfl⟩⟩

theorem initialise_decides :
    Decides (initialise out) s s (Call.Stops out s .initialise) := by
  refine .read_bind (.lift_bind (fun e he => decides_unchanged fun h => ?_) fun _ hfresh => ?_)
  · exact (Fallible.ensure_eq_error.mp he).1 h.1
  have hfresh := Fallible.ensure_eq_ok.mp hfresh
  have hroot : Closes s ROOT (rootChange s.repo.backend) ↔ _ := closes_rootChange hfresh
  refine .bind ((edit_ends (rootChange s.repo.backend)).mono (fun _ _ h => h) ?_ fun _ h => h) ?_
  · rintro e s' ⟨rfl, herror⟩
    refine decides_unchanged fun h => ?_
    obtain ⟨md, signed, hopens, hsome⟩ := hroot.mpr h.2.1
    obtain herror | ⟨md', hopens', herror | ⟨signed', -, hfew, -⟩⟩ := herror
    · cases herror.symm.trans hopens
    · obtain rfl : md = md' := Except.ok.inj (hopens.symm.trans hopens')
      cases herror.symm.trans hsome
    · exact hfew h.2.2.1
  rintro - s₁ ⟨md, hopens, ⟨hnone, -⟩ | ⟨signed, hsome, hclosed⟩⟩
  · obtain ⟨root, hroot⟩ := rootChange_eq_ok hnone
    cases hroot
  have hkeys := hroot.mp ⟨md, signed, hopens, hsome⟩
  have hother {top : String} (hne : top ≠ ROOT) : Alike top s s₁ :=
    hclosed.toLeaves.alike (by simpa using hne)
  have hrest : Call.Stops out s .initialise ↔ (∃ md, s.opens TARGETS = .ok md) ∧
      (Keyed TARGETS s → PublishStops out ((s.bump ROOT).bump TARGETS).targetsInfos s) :=
    ⟨fun h => h.2.2.2, fun h => ⟨hfresh, hkeys, hclosed.keyed, h⟩⟩
  rw [hrest]
  refine .bind ((edit_decides unchanged_quiet).mono (fun _ _ h => h) ?_ fun _ h => h) ?_
  · rintro e s' ⟨rfl, ⟨⟨hcloses, hfew⟩, hpublication⟩ | ⟨hcloses, -, hother'⟩⟩
    · rw [closes_unchanged, (hother (by decide)).opens] at hcloses
      rw [(hother (by decide)).keyed] at hfew
      exact iff_of_true ⟨hpublication, fun hsame =>
        hclosed.versions_ne ⟨rfl, rfl, .rfl⟩ (hsame.versions ROOT)⟩
        ⟨hcloses, fun hkeyed => absurd hkeyed hfew⟩
    · rw [closes_unchanged, (hother (by decide)).opens] at hcloses
      exact iff_of_false (fun h => hother' h.1) fun h => hcloses h.1
  rintro - s₂ (⟨hskips, -⟩ | ⟨hcloses, signed', hclosed'⟩)
  · exact absurd hskips not_skips_unchanged
  rw [closes_unchanged, (hother (by decide)).opens] at hcloses
  have hkeyed : Keyed TARGETS s := (hother (by decide)).keyed.mp hclosed'.keyed
  have hother' {top : String} (hroot : top ≠ ROOT) (htargets : top ≠ TARGETS) : Alike top s s₂ :=
    (hother hroot).trans (hclosed'.toLeaves.alike (by simpa using htargets))
  refine publish_after (fun s' hleaves hsame => ?_) ?_
  · have hsince : Alike ROOT s₁ s' :=
      (hclosed'.toLeaves.alike (by decide)).trans (hleaves.alike (by decide))
    exact hclosed.versions_ne hsince (hsame.versions ROOT)
  · have hreported : s₂.targetsInfos = ((s.bump ROOT).bump TARGETS).targetsInfos := by
      refine hclosed'.targetsInfos.trans (targetsInfos_congr (fun role => ?_) hclosed.appRoles)
      rw [version_bump, version_bump, hclosed.version_eq, hclosed.version_eq]
    rw [publishStops_congr (hother' (by decide) (by decide)) (hother' (by decide) (by decide)),
      hreported]
    exact ⟨fun h => ⟨hcloses, fun _ => h⟩, fun h => h.2 hkeyed⟩

theorem perform_decides (call : Call β) :
    Decides (call.perform out) s s (call.Stops out s) := by
  cases call with
  | initialise => exact initialise_decides
  | addApp appId critical => exact (addApp_decides appId critical).andReturn fun _ => ()
  | addRelease key payload info => exact (addRelease_decides key payload info).andReturn fun _ => ()
  | setCurrent key => exact (setCurrent_decides key).andReturn fun _ => ()

end Operations

/-! ## The main result -/

/-- From any state and with any backend, the errors of an operation leave everything as it was
exactly where the operation does not run out of keys after its first change. -/
theorem atomic_iff (out : Outside β) (call : Call β) (s : Session β) :
    Atomic out call s ↔ ¬ call.Stops out s := by
  constructor
  · intro hatomic hstops
    have hraises : (call.perform out).Ends s (fun _ _ => False)
        (fun e s' => IsPublicationError e ∧ ¬ Unchanged s s') (fun _ => True) :=
      (perform_decides call).mono (fun _ _ h => h hstops) (fun _ _ h => h.mpr hstops) fun _ h => h
    obtain ⟨e, s', rest, hraised, hpublication, hchanged⟩ :=
      hraises.raises (perform_bounded out call)
    exact hchanged (hatomic _ _ _ _ hraised hpublication)
  · intro hstops n e s' rest hraised hpublication
    have hends := (perform_decides call : Decides (call.perform out) s s (call.Stops out s)) n
    rw [hraised] at hends
    by_contra hchanged
    exact hstops (hends.mp ⟨hpublication, hchanged⟩)

/-- Five keys for every role but the top-level targets, which have one of the two they need. -/
def fewTargetsKeys : SignerBackend :=
  ⟨fun role => if role = TARGETS then ["k1"] else ["k1", "k2", "k3", "k4", "k5"], id⟩

/-- The first ceremony writes the root, and then misses a key for the targets. -/
theorem ceremony_not_atomic :
    ∃ repo, Instance.new fewTargetsKeys (.empty : Directory String) = .ok repo ∧
      ¬ Atomic textPayloads .initialise ⟨repo, .empty⟩ := by
  refine ⟨⟨fewTargetsKeys, TOP_LEVEL_POLICIES, [], []⟩, rfl, fun hatomic => ?_⟩
  have hrun : (match Call.initialise.perform textPayloads
        ⟨⟨fewTargetsKeys, TOP_LEVEL_POLICIES, [], []⟩, .empty⟩ 9 with
      | .raised (.PublicationError _) s' _ => s'.repo.versions.get ROOT == some 1
      | _ => false) = true := by
    decide +kernel
  split at hrun
  next message s' rest hraised =>
    have hsame := (hatomic _ _ _ _ hraised ⟨message, rfl⟩).versions ROOT
    rw [beq_iff_eq.mp hrun] at hsame
    cases hsame
  · cases hrun

end DistPlatform.Core
