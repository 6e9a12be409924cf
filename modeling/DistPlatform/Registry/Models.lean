import DistPlatform.Library.Json

/-!
# Registered sources and jobs (`dist_registry.models`)

A source is the operator's decision about one application's forge project; a job is a unit
of work for one of the two services that hold a credential.

## Main definitions

* `Source`, `SourceStatus`, `Forge` — a row of `sources`.
* `JobKind`, `JobState` — what a job is, and how far it is.
-/

namespace DistPlatform.Registry

inductive Forge
  | GITHUB
  | GITLAB
  deriving DecidableEq, Repr

inductive SourceStatus
  | DRAFT
  | VALIDATING
  | INVALID
  | PENDING_DELEGATION
  | ACTIVE
  | PAUSED
  deriving DecidableEq, Repr

/-- `VALIDATE` and `POLL` are the ingest worker's, `PUBLISH` is the signing worker's. -/
inductive JobKind
  | VALIDATE
  | POLL
  | PUBLISH
  deriving DecidableEq, Repr

inductive JobState
  | QUEUED
  | RUNNING
  | DONE
  | FAILED
  deriving DecidableEq, Repr

/-- The id of a row. -/
abbrev SourceId := Nat

/-- One forge project registered as a source of installers for one app. -/
structure Source where
  id : SourceId
  appId : String
  forge : Forge
  project : String
  apiBase : String
  projectUrl : String
  status : SourceStatus
  critical : Bool
  assetName : String
  tagPrefix : String
  requireTagRefPrefix : String
  maxAssetBytes : Nat
  channel : String
  platform : String
  arch : String
  workflowUri : Option String
  oidcIssuer : Option String
  repositoryId : Option String
  repositoryOwnerId : Option String
  runnerEnvironment : String
  builderId : Option String
  builderKeyid : Option String
  builderPublicKeyPem : Option String
  attestationAsset : String
  lastError : Option String
  deriving DecidableEq, Repr

def Source.pollable (source : Source) : Bool := source.status == .ACTIVE

/-- Python's truth value of an optional string, with the string where it is true. -/
def present : Option String → Option String
  | some "" => none
  | value => value

end DistPlatform.Registry
