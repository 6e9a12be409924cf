import DistPlatform.Core.FileNames
import DistPlatform.Core.Naming
import DistPlatform.Library.Fallible
import DistPlatform.Library.Process
import DistPlatform.Library.Table
import Mathlib.Data.List.Sort
import Mathlib.Data.String.Basic

/-!
# The TUF repository on a file system (`dist_core.repository`)

An instance remembers the version of every role and writes one file at a time; a fresh one
learns the versions from the file names it finds. Every durable write is a step the process
can be killed at.

## Main definitions

* `Metadata`, `Directory` — a signed file, and what is on disk.
* `Instance`, `Instance.new` — the state of `FileSystemRepository`, and its `_scan`.
* `initialise`, `addApp`, `addRelease`, `setCurrent` — the operations, write by write.
-/

namespace DistPlatform.Core

open DistPlatform

/-! ## Metadata -/

structure TargetFile where
  length : Nat
  sha256 : String
  custom : List (String × Json)
  deriving DecidableEq

structure DelegatedRole where
  name : String
  keyids : List String
  threshold : Nat
  terminating : Bool
  paths : List String
  deriving DecidableEq

structure Delegations where
  keys : Table String String
  roles : Table String DelegatedRole
  deriving DecidableEq

structure Targets where
  targets : Table String TargetFile
  delegations : Option Delegations
  deriving DecidableEq

/-- A role of the root: its key ids and threshold. -/
structure RootRole where
  keyids : List String
  threshold : Nat
  deriving DecidableEq

structure Root where
  consistentSnapshot : Bool
  keys : Table String String
  roles : Table String RootRole
  deriving DecidableEq

/-- The signed part. A snapshot names file names with versions, a timestamp the version of the
snapshot. -/
inductive Signed
  | root (root : Root)
  | targets (targets : Targets)
  | snapshot (metas : Table String Nat)
  | timestamp (snapshot : Nat)
  deriving DecidableEq

/-- `signatures` are the ids of the keys that signed. -/
structure Metadata where
  signed : Signed
  version : Nat
  expires : Nat
  signatures : List String
  deriving DecidableEq

/-- `_INITIAL`, with the values python-tuf's constructors start from. -/
def Signed.initial (role : String) : Signed :=
  if role = ROOT then
    .root ⟨true, [], [ROOT, TIMESTAMP, SNAPSHOT, TARGETS].map fun name => (name, ⟨[], 1⟩)⟩
  else if role = SNAPSHOT then .snapshot [("targets.json", 1)]
  else if role = TIMESTAMP then .timestamp 1
  else .targets ⟨[], none⟩

def Metadata.initial (role : String) : Metadata := ⟨Signed.initial role, 1, 0, []⟩

/-! ## Outside the repository -/

/-- What `do_snapshot` and `do_timestamp` of python-tuf decide: the new content, or nothing
where they skip. They skip exactly when the recorded file is signed and the versions that the
repository reports are those it records. -/
structure TufRepository where
  snapshotMeta (signed : Bool) (recorded reported : Table String Nat) :
    Except String (Option (Table String Nat))
  timestampSnapshot (signed : Bool) (recorded reported : Nat) : Except String (Option Nat)
  snapshot_skips : ∀ signed recorded reported,
    snapshotMeta signed recorded reported = .ok none ↔
      signed = true ∧ ∀ file version, reported.get file = some version →
        recorded.get file = some version
  snapshot_updates : ∀ signed recorded reported metas,
    snapshotMeta signed recorded reported = .ok (some metas) →
      ∀ file version, metas.get file = some version →
        reported.get file = some version ∨
          reported.get file = none ∧ recorded.get file = some version
  timestamp_skips : ∀ signed recorded reported,
    timestampSnapshot signed recorded reported = .ok none ↔ signed = true ∧ recorded = reported
  timestamp_updates : ∀ signed recorded reported version,
    timestampSnapshot signed recorded reported = .ok (some version) → version = reported

/-- What the repository uses of other code: `β` is the content of a payload, `dumps` writes the
channel pointer, and `clock n` is the day on which the `n`-th metadata file is written. -/
structure Outside (β : Type) where
  sha256 : β → String
  length : β → Nat
  dumps : Json → β
  clock : Nat → Nat
  tuf : TufRepository
  sha256_hex : ∀ payload, ∀ c ∈ (sha256 payload).toList, c ≠ '/' ∧ c ≠ '.'

structure SignerBackend where
  keyids : String → List String
  publicKey : String → String

inductive RepositoryError
  | PublicationError (message : String)
  | ValueError (error : Core.ValueError)
  | AssertionError
  | FileNotFoundError (name : String)
  | TufError (message : String)
  deriving DecidableEq, Repr

/-! ## The directory and the instance -/

/-- The published directory; `history` is every write to the metadata directory, in order. -/
structure Directory (β : Type) where
  metadata : Table String Metadata
  payloads : Table String β
  history : List (String × Metadata)
  deriving DecidableEq

def Directory.empty {β : Type} : Directory β := ⟨[], [], []⟩

def Directory.put {β : Type} (dir : Directory β) (name : String) (md : Metadata) :
    Directory β :=
  { dir with metadata := dir.metadata.put name md, history := dir.history ++ [(name, md)] }

def Directory.store {β : Type} (dir : Directory β) (path : String) (payload : β) :
    Directory β :=
  { dir with payloads := dir.payloads.put path payload }

structure Instance where
  backend : SignerBackend
  policies : Table String RolePolicy
  versions : Table String Nat
  appRoles : List String

/-- `_versions.get(role, 0)` -/
def Instance.version (repo : Instance) (role : String) : Nat := (repo.versions.get role).getD 0

/-- `open`. -/
def Instance.openRole {β : Type} (repo : Instance) (dir : Directory β) (role : String) :
    Except RepositoryError Metadata :=
  if repo.version role = 0 then .ok (Metadata.initial role)
  else match dir.metadata.get (filename role (repo.version role)) with
    | some md => .ok md
    | none => .error (.FileNotFoundError (filename role (repo.version role)))

/-- One turn of the loop in `_scan`. -/
def scanFile (versions : Table String Nat) (file : String × Metadata) : Table String Nat :=
  match matchVersioned file.1 with
  | some (version, role) => versions.put role (max ((versions.get role).getD 0) version)
  | none =>
    if file.1 = "timestamp.json" then versions.put TIMESTAMP file.2.version else versions

/-- Over the files in any order: only the highest version of a role counts. -/
def scanVersions {β : Type} (dir : Directory β) : Table String Nat :=
  dir.metadata.foldl scanFile []

/-- `_policies.setdefault(name, _policy_from_role_name(name))` for each delegated role. -/
def scanPolicies (policies : Table String RolePolicy) :
    List String → Except RepositoryError (Table String RolePolicy)
  | [] => .ok policies
  | name :: names =>
    let appId := if Text.startsWith name APP_ROLE_PREFIX then
      String.ofList (name.toList.drop APP_ROLE_PREFIX.length) else name
    match appRolePolicy appId false with
    | .error e => .error (.ValueError e)
    | .ok policy =>
      scanPolicies (if (policies.get name).isSome then policies else policies.put name policy) names

/-- `FileSystemRepository(...)`: the constructor with its `_scan`. -/
def Instance.new {β : Type} (backend : SignerBackend) (dir : Directory β) :
    Except RepositoryError Instance :=
  let scanned : Instance := ⟨backend, TOP_LEVEL_POLICIES, scanVersions dir, []⟩
  if scanned.version TARGETS = 0 then .ok scanned
  else do
    let md ← scanned.openRole dir TARGETS
    match md.signed with
    | .targets targets => match targets.delegations with
      | none => return scanned
      | some delegations =>
        let names := delegations.roles.map (·.1)
        let policies ← scanPolicies TOP_LEVEL_POLICIES names
        return { scanned with policies, appRoles := names }
    | _ => .error .AssertionError

/-- An instance at work on the directory. -/
structure Session (β : Type) where
  repo : Instance
  dir : Directory β

abbrev Work (β α : Type) := Process (Session β) RepositoryError α

namespace Session

variable {β : Type}

def setVersion (role : String) (version : Nat) (s : Session β) : Session β :=
  { s with repo := { s.repo with versions := s.repo.versions.put role version } }

def setPolicy (policy : RolePolicy) (s : Session β) : Session β :=
  { s with repo := { s.repo with policies := s.repo.policies.put policy.name policy } }

def addAppRole (role : String) (s : Session β) : Session β :=
  { s with repo := { s.repo with appRoles := s.repo.appRoles.insert role } }

/-- `targets_infos`. -/
def targetsInfos (s : Session β) : Table String Nat :=
  (TARGETS :: s.repo.appRoles.insertionSort (· ≤ ·)).filterMap fun role =>
    match s.repo.versions.get role with
    | none | some 0 => none
    | some version => some (role ++ ".json", version)

/-- `snapshot_info`. -/
def snapshotInfo (s : Session β) : Nat := (s.repo.versions.get SNAPSHOT).getD 1

end Session

/-! ## Writes -/

section Operations

variable {β : Type} (out : Outside β)

def atomicWrite (name : String) (md : Metadata) : Work β Unit :=
  Process.write fun s => { s with dir := s.dir.put name md }

/-- `_write`, with the unversioned alias of the root. -/
def writeMetadata (role : String) (version : Nat) (md : Metadata) : Work β Unit := do
  atomicWrite (filename role version) md
  if role = ROOT then atomicWrite "root.json" md

def storePayload (targetPath : String) (targetFile : TargetFile) (source : β) : Work β Unit :=
  Process.write fun s =>
    { s with dir := s.dir.store (payloadPath targetPath targetFile.sha256) source }

/-- `close`. -/
def close (role : String) (md : Metadata) : Work β Unit := do
  let s ← Process.read
  match s.repo.policies.get role with
  | none => Process.raise (.PublicationError ("no policy registered for role " ++
      Text.quoted role))
  | some policy =>
    let version := s.repo.version role + 1
    let keyids := s.repo.backend.keyids role
    if keyids.length < policy.threshold then
      Process.raise (.PublicationError ("role " ++ Text.quoted role ++ " needs " ++
        toString policy.threshold ++ " keys to meet its threshold, backend holds " ++
        toString keyids.length))
    else
      let signed := { md with
        version
        expires := out.clock s.dir.history.length + policy.expiry
        signatures := keyids }
      writeMetadata role version signed
      Process.update (Session.setVersion role version)

/-- python-tuf's `edit`: open, change, close. Where `change` gives nothing it has raised
`AbortEdit`, and the file stays as it is. -/
def edit (role : String) (change : Metadata → Except RepositoryError (Option Signed)) :
    Work β Unit := do
  let s ← Process.read
  let md ← Process.lift (s.repo.openRole s.dir role)
  match ← Process.lift (change md) with
  | none => pure ()
  | some signed => close out role { md with signed }

/-- An edit that changes nothing, but writes. -/
def unchanged (md : Metadata) : Except RepositoryError (Option Signed) := .ok (some md.signed)

/-- `do_snapshot`. -/
def doSnapshot : Work β Unit := do
  let s ← Process.read
  edit out SNAPSHOT fun md => match md.signed with
    | .snapshot recorded =>
      match out.tuf.snapshotMeta (!md.signatures.isEmpty) recorded s.targetsInfos with
      | .ok metas => .ok (metas.map .snapshot)
      | .error e => .error (.TufError e)
    | _ => .error .AssertionError

/-- `do_timestamp`. -/
def doTimestamp : Work β Unit := do
  let s ← Process.read
  edit out TIMESTAMP fun md => match md.signed with
    | .timestamp recorded =>
      match out.tuf.timestampSnapshot (!md.signatures.isEmpty) recorded s.snapshotInfo with
      | .ok version => .ok (version.map .timestamp)
      | .error e => .error (.TufError e)
    | _ => .error .AssertionError

def publish : Work β Unit := do
  doSnapshot out
  doTimestamp out

/-! ## Operations -/

/-- python-tuf's `add_key`. -/
def Root.addKey (root : Root) (key keyid role : String) : Root :=
  let entry := (root.roles.get role).getD ⟨[], 1⟩
  let keyids := if keyid ∈ entry.keyids then entry.keyids else entry.keyids ++ [keyid]
  { root with
    keys := root.keys.put keyid key
    roles := root.roles.put role { entry with keyids } }

/-- The keys of one role go into the root; a role without keys is refused. -/
def rootWithRole (backend : SignerBackend) (root : Root) (policy : RolePolicy) :
    Except RepositoryError Root :=
  match backend.keyids policy.name with
  | [] => .error (.PublicationError ("no signing key available for role " ++
      Text.quoted policy.name))
  | keyids =>
    let root := keyids.foldl (fun root keyid =>
      root.addKey (backend.publicKey keyid) keyid policy.name) root
    let entry := (root.roles.get policy.name).getD ⟨[], 1⟩
    .ok { root with
      roles := root.roles.put policy.name { entry with threshold := policy.threshold } }

/-- `initialize`. -/
def initialise : Work β Unit := do
  let s ← Process.read
  Process.lift (Fallible.ensure (s.repo.version ROOT = 0)
    (.PublicationError "repository is already initialised"))
  edit out ROOT fun md => match md.signed with
    | .root root => do
      let root ← (TOP_LEVEL_POLICIES.map (·.2)).foldlM (rootWithRole s.repo.backend)
        { root with consistentSnapshot := true }
      return some (.root root)
    | _ => .error .AssertionError
  edit out TARGETS unchanged
  publish out

/-- The delegation `add_app` writes into the top-level targets. The order of the rows is left open
where the metadata is read. -/
def delegate (backend : SignerBackend) (policy : RolePolicy) (appId : String)
    (keyids : List String) (targets : Targets) : Targets :=
  let delegations := targets.delegations.getD ⟨[], []⟩
  let keys := keyids.foldl (fun keys keyid => keys.put keyid (backend.publicKey keyid))
    delegations.keys
  let role : DelegatedRole :=
    ⟨policy.name, keyids, policy.threshold, false, [appPathPattern appId]⟩
  { targets with delegations := some ⟨keys, delegations.roles.put policy.name role⟩ }

/-- The change of an edit that works on `Targets` metadata. -/
def onTargets (change : Targets → Targets) (md : Metadata) :
    Except RepositoryError (Option Signed) :=
  match md.signed with
  | .targets targets => .ok (some (.targets (change targets)))
  | _ => .error .AssertionError

def addApp (appId : String) (critical : Bool) : Work β String := do
  let policy ← Process.lift ((appRolePolicy appId critical).mapError .ValueError)
  Process.update (Session.setPolicy policy)
  let s ← Process.read
  let keyids := s.repo.backend.keyids policy.name
  Process.lift (Fallible.ensure (keyids ≠ []) (.PublicationError
    ("no signing key available for delegated role " ++ Text.quoted policy.name)))
  edit out TARGETS (onTargets (delegate s.repo.backend policy appId keyids))
  Process.update (Session.addAppRole policy.name)
  edit out policy.name unchanged
  publish out
  return policy.name

/-- `TargetFile.from_file`, with the release info as custom data. -/
def targetFile (payload : β) (info : ReleaseInfo) : TargetFile :=
  ⟨out.length payload, out.sha256 payload, info.toCustom⟩

/-- The role of an application that has one. -/
def delegatedRole (appId : String) : Work β String := do
  let role ← Process.lift ((appRoleName appId).mapError .ValueError)
  let s ← Process.read
  Process.lift (Fallible.ensure (role ∈ s.repo.appRoles) (.PublicationError ("application " ++
    Text.quoted appId ++ " has no delegated role; call add_app")))
  return role

/-- Store a payload, list it in the role and publish. -/
def publishTarget (role path : String) (payload : β) (info : ReleaseInfo) : Work β Unit := do
  let file := targetFile out payload info
  storePayload path file payload
  edit out role (onTargets fun targets =>
    { targets with targets := targets.targets.put path file })
  publish out

def addRelease (key : TargetKey) (payload : β) (info : ReleaseInfo) : Work β String := do
  Process.lift (Fallible.ensure (info.version = key.version) (.PublicationError
    ("release info version " ++ Text.quoted info.version ++
      " does not match target path version " ++ Text.quoted key.version)))
  let role ← delegatedRole key.appId
  publishTarget out role key.path payload info
  return key.path

/-- The signed info of a channel pointer: its rollout is always 100. -/
def pointerInfo (key : TargetKey) : ReleaseInfo where
  version := key.version
  rolloutPct := 100
  versionSafe := key.version_safe
  pctInRange := hundred_inRange

def setCurrent (key : TargetKey) : Work β String := do
  let role ← delegatedRole key.appId
  let s ← Process.read
  let published ← Process.lift (s.repo.openRole s.dir role)
  match published.signed with
  | .targets targets =>
    Process.lift (Fallible.ensure (targets.targets.get key.path).isSome (.PublicationError
      ("cannot make " ++ Text.quoted key.path ++ " current: it has not been published")))
    let pointer ← Process.lift ((CurrentRelease.make key.path key.version).mapError .ValueError)
    publishTarget out role key.channelKey.pointerPath (out.dumps pointer.toJson) (pointerInfo key)
    return key.channelKey.pointerPath
  | _ => Process.raise .AssertionError

/-! ## Runs -/

/-- The operations of an instance. -/
inductive Call (β : Type)
  | initialise
  | addApp (appId : String) (critical : Bool)
  | addRelease (key : TargetKey) (payload : β) (info : ReleaseInfo)
  | setCurrent (key : TargetKey)

def Call.perform : Call β → Work β Unit
  | .initialise => Core.initialise out
  | .addApp appId critical => do
    let _ ← Core.addApp out appId critical
    return ()
  | .addRelease key payload info => do
    let _ ← Core.addRelease out key payload info
    return ()
  | .setCurrent key => do
    let _ ← Core.setCurrent out key
    return ()

end Operations

end DistPlatform.Core
