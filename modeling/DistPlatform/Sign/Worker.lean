import DistPlatform.Queue.Turn

/-!
# The signing worker (`dist_sign.worker`)

It claims publish jobs only, reads the artifact a job names out of quarantine, checks the
digest again, and signs the release into the repository. It never writes to quarantine.

## Main definitions

* `Release`, `releaseOf` — what a job signs, or the refusal.
* `SignerPlace`, `signerTurn` — the places of the loop, and what each does.
-/

namespace DistPlatform.Sign

open DistPlatform.Core (TargetKey ReleaseInfo appRoleName)
open Ingest (Bytes Libraries PublishPayload Published Quarantine)
open Queue (Db QueueJob Turn claimJob fetchSource)
open Registry (JobKind JobState Source)

def STALE_AFTER := 30 * 60

def CLAIMS : List JobKind := [.PUBLISH]

/-- What `add_release` is called with. -/
structure Release where
  key : TargetKey
  artifact : Bytes
  info : ReleaseInfo
  versions : info.version = key.version
  deriving DecidableEq

def publicationError (message : String) : String := "PublicationError: " ++ message

/-- The first required field that is missing or empty. -/
def missingField (payload : PublishPayload) : Option String :=
  [("sha256", payload.sha256), ("version", payload.version),
    ("filename", payload.filename)].findSome? fun (required, value) =>
      if value = "" then some required else none

/-- `do_publish` up to the call of `add_release`. The error is the text that is recorded. -/
def releaseOf (lib : Libraries) (appRoles : List String) (quarantine : Quarantine)
    (source : Source) (payload : PublishPayload) : Except String Release :=
  match missingField payload with
  | some required => .error (publicationError ("publish job carries no " ++ required))
  | none =>
    match quarantine.read payload.sha256 with
    | none => .error (publicationError ("no quarantined artifact " ++ payload.sha256))
    | some artifact =>
      if lib.sha256 artifact ≠ payload.sha256 then
        .error (publicationError ("quarantined artifact " ++ payload.sha256 ++ " now hashes to " ++
          lib.sha256 artifact ++ "; refusing to sign it"))
      else match appRoleName source.appId with
      | .error e => .error ("ValueError: " ++ e.message)
      | .ok role =>
        if role ∉ appRoles then
          .error (publicationError (source.appId ++
            " has no delegated role in the published metadata; the ceremony has not happened"))
        else match TargetKey.make source.appId source.channel source.platform source.arch
            payload.version payload.filename with
        | .error e => .error ("ValueError: " ++ e.message)
        | .ok key => .ok {
            key, artifact
            info := { version := key.version
                      versionSafe := key.version_safe
                      pctInRange := Core.hundred_inRange }
            versions := rfl }

/-- A payload that was never set is `{}`. -/
def noPayload : PublishPayload := ⟨"", "", "", ""⟩

/-! ## The loop -/

inductive SignerPlace
  | idle
  | claiming
  | fetching (job : QueueJob)
  | abandoning (job : QueueJob)
  | publishing (job : QueueJob) (source : Source)
  | adding (job : QueueJob) (source : Source) (release : Release)
  | pointing (job : QueueJob) (source : Source) (release : Release)
  | finishing (job : QueueJob) (source : Source) (result : Published)
  | failing (job : QueueJob) (source : Source) (message : String)
  deriving DecidableEq

/-- `added` and `pointed` are what the repository answers to `add_release` and `set_current`:
an error is the text that is recorded. -/
structure SignerAct where
  now : Nat
  job : Option QueueJob
  appRoles : List String
  added : Except String Unit
  pointed : Except String Unit

/-- The result of `do_publish`. -/
def Release.published (release : Release) (sha256 : String) : Published :=
  ⟨release.key.path, release.key.channelKey.pointerPath, release.key.version, sha256⟩

def signerTurn (lib : Libraries) (act : SignerAct) (db : Db) (quarantine : Quarantine) :
    SignerPlace → Option (Turn SignerPlace)
  | .idle => some { statement := .resetStale STALE_AFTER act.now, next := .claiming }
  | .claiming => claimJob db CLAIMS act.now act.job .idle .fetching
  | .fetching job => some (fetchSource db job (.abandoning job) (.publishing job))
  | .abandoning job => some
      { statement := .finish job.id .FAILED none (some "source was deleted") act.now
        next := .idle }
  | .publishing job source =>
    match releaseOf lib act.appRoles quarantine source (job.payload.getD noPayload) with
    | .error message => some (.goto (.failing job source message))
    | .ok release => some (.goto (.adding job source release))
  | .adding job source release => some
      { statement := .select
        next := match act.added with
          | .error message => .failing job source message
          | .ok () => .pointing job source release
        effect := some (.added job source release.key release.artifact) }
  | .pointing job source release => some (.goto (match act.pointed with
      | .error message => .failing job source message
      | .ok () => .finishing job source
          (release.published (job.payload.getD noPayload).sha256)))
  | .finishing job _ result => some
      { statement := .finish job.id .DONE (some (.published result)) none act.now
        next := .idle }
  | .failing job _ message => some
      { statement := .finish job.id .FAILED none (some message) act.now, next := .idle }

/-- The job a worker is running. -/
def SignerPlace.running : SignerPlace → Option QueueJob
  | .fetching job | .abandoning job | .publishing job _ | .adding job _ _ | .pointing job _ _
  | .finishing job _ _ | .failing job _ _ => some job
  | _ => none

/-! ## What a release is made of -/

theorem releaseOf_eq_ok {lib : Libraries} {appRoles : List String} {quarantine : Quarantine}
    {source : Source} {payload : PublishPayload} {release : Release}
    (h : releaseOf lib appRoles quarantine source payload = .ok release) :
    missingField payload = none ∧ lib.sha256 release.artifact = payload.sha256 ∧
      release.key.appId = source.appId ∧ release.key.version = payload.version ∧
      release.key.filename = payload.filename := by
  unfold releaseOf at h
  split at h
  · cases h
  next hmissing =>
    split at h
    · cases h
    · split at h
      · cases h
      next hsha =>
        split at h
        · cases h
        · split at h
          · cases h
          · split at h
            · cases h
            next key hkey =>
              obtain rfl := Except.ok.inj h
              refine ⟨hmissing, not_not.mp hsha, ?_⟩
              obtain ⟨happ, -, -, -, hversion, hfilename⟩ := Core.targetKey_make_eq_ok hkey
              exact ⟨happ, hversion, hfilename⟩

end DistPlatform.Sign
