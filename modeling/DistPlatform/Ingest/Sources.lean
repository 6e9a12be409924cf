import DistPlatform.Ingest.Forge
import DistPlatform.Ingest.Policy
import DistPlatform.Registry.Models

/-!
# From a registered source to a policy (`dist_ingest.sources`)

The operator's row becomes the release source to fetch with and the policy to judge with.

## Main definitions

* `ForgeAnswers` — what the forge answers to the requests of one job.
* `latestRelease`, `projectIdentity` — the forge's own reading of those answers.
* `provenancePolicy`, `ingestPolicy` — the row as a policy, or the refusal.
-/

namespace DistPlatform.Ingest

open Registry (Source Forge present)

/-- What ends a job early. -/
inductive JobError
  | ForgeError (error : ForgeError)
  | SourceConfigError (message : String)
  /-- Any other exception, by the text `run_job` records. -/
  | Other (message : String)
  deriving DecidableEq, Repr

/-- The forge's answers, as the HTTP layer hands them on: `none` is a 404. A download is the
bytes streamed into the sink. -/
structure ForgeAnswers where
  latest : Except JobError (Option Json)
  project : Except JobError (Option Json)
  download : ForgeAsset → Except JobError Bytes
  attestation : String → Except JobError (Option Bytes)
  intOf : Json → Option Int

/-- `release_source(source, client).latest_release()`. -/
def latestRelease (source : Source) (answers : ForgeAnswers) :
    Except JobError (Option ForgeRelease) :=
  match answers.latest with
  | .error e => .error e
  | .ok body =>
    match (match source.forge with
      | .GITHUB => latestReleaseGitHub answers.intOf source.tagPrefix body
      | .GITLAB => latestReleaseGitLab source.tagPrefix body) with
    | .error (.ForgeError e) => .error (.ForgeError e)
    | .error .BadSize => .error (.Other "int() argument")
    | .ok release => .ok release

/-- `isinstance(value, int)`, with the `str` of it; a bool is an int. -/
def intText : Json → Option String
  | .int i => some (toString i)
  | .bool true => some "True"
  | .bool false => some "False"
  | _ => none

structure Identity where
  repository : String
  repositoryId : String
  repositoryOwnerId : String
  deriving DecidableEq, Repr

/-- Both `project_identity`, by the names of the forge's fields. -/
def identityOf (forgeName ownerField nameField : String) (source : Source) :
    Option Json → Except JobError Identity
  | none => .error (.ForgeError ⟨"no such " ++ forgeName ++ " project: " ++
      Text.quoted source.project⟩)
  | some body =>
    match (body.get? "id").bind intText,
        (((body.get? ownerField).filter Json.isObj).bind (·.get? "id")).bind intText with
    | some repositoryId, some repositoryOwnerId =>
      .ok ⟨(body.getStr? nameField).getD source.project, repositoryId, repositoryOwnerId⟩
    | _, _ => .error (.ForgeError ⟨forgeName ++ " project response carries no numeric ids"⟩)

def projectIdentity (source : Source) (answers : ForgeAnswers) : Except JobError Identity :=
  match answers.project with
  | .error e => .error e
  | .ok body => match source.forge with
    | .GITHUB => identityOf "GitHub" "owner" "full_name" source body
    | .GITLAB => identityOf "GitLab" "namespace" "path_with_namespace" source body

/-- The pins a GitHub source lacks, by name. -/
def missingPins (source : Source) : List String :=
  ([("workflow_uri", source.workflowUri), ("oidc_issuer", source.oidcIssuer),
    ("repository_id", source.repositoryId), ("repository_owner_id", source.repositoryOwnerId)]
    |>.filter fun pin => (present pin.2).isNone).map (·.1)

def provenancePolicy (source : Source) : Except JobError ProvenancePolicy :=
  match source.forge with
  | .GITHUB =>
    match present source.workflowUri, present source.oidcIssuer, present source.repositoryId,
        present source.repositoryOwnerId with
    | some workflowUri, some issuer, some repositoryId, some repositoryOwnerId =>
      .ok {
        trustedBuilders := []
        projectUrl := source.projectUrl
        requireTagRefPrefix := source.requireTagRefPrefix
        trustedIdentities := [⟨workflowUri, issuer, source.project, repositoryId,
          repositoryOwnerId, source.runnerEnvironment⟩]
        trustsSome := .inr (List.cons_ne_nil _ _) }
    | _, _, _, _ => .error (.SourceConfigError (source.appId ++
        ": certificate identity is incomplete, missing " ++ toString (missingPins source) ++
        ". Re-run validation so the numeric ids are read from the forge."))
  | .GITLAB =>
    match present source.builderId, present source.builderKeyid,
        present source.builderPublicKeyPem with
    | some builderId, some keyid, some pem =>
      .ok {
        trustedBuilders := [⟨builderId, keyid, pem.toUTF8.toList⟩]
        projectUrl := source.projectUrl
        requireTagRefPrefix := source.requireTagRefPrefix
        trustedIdentities := []
        trustsSome := .inl (List.cons_ne_nil _ _) }
    | _, _, _ => .error (.SourceConfigError (source.appId ++
        ": GitLab sources need a builder id, key id and public key"))

/-- `skipped_gates`, from the names in `DIST_SKIP_GATES`. -/
def skippedGates (named : List String) : Except JobError (List String) :=
  if named.all (["malware", "publisher", "sbom"].contains ·) then .ok named
  else .error (.SourceConfigError ("DIST_SKIP_GATES names unknown gates: " ++
    toString (named.filter fun n => !(["malware", "publisher", "sbom"].contains n))))

def ingestPolicy (source : Source) (named : List String) : Except JobError AppIngestPolicy := do
  let provenance ← provenancePolicy source
  let skip ← skippedGates named
  return ⟨source.appId, source.critical, provenance, {}, { skip }⟩

/-! ## What the row decides -/

theorem latestRelease_version {source : Source} {answers : ForgeAnswers} {release : ForgeRelease}
    (h : latestRelease source answers = .ok (some release)) :
    versionFromTag release.tag source.tagPrefix = .ok release.version := by
  unfold latestRelease at h
  split at h
  · cases h
  next body _ =>
    split at h
    · cases h
    · cases h
    next found hfound =>
      obtain rfl := Except.ok.inj h
      split at hfound
      · exact latestReleaseGitHub_version hfound
      · exact latestReleaseGitLab_version hfound

theorem ingestPolicy_provenance {source : Source} {named : List String} {policy : AppIngestPolicy}
    (h : ingestPolicy source named = .ok policy) :
    policy.appId = source.appId ∧ policy.critical = source.critical ∧
      provenancePolicy source = .ok policy.provenance := by
  simp only [ingestPolicy, Fallible.bind_eq_ok, Fallible.pure_eq_ok] at h
  obtain ⟨provenance, hprov, skip, -, rfl⟩ := h
  exact ⟨rfl, rfl, hprov⟩

/-- An online key means that the row was not critical. -/
theorem keystore_online {source : Source} {named : List String} {policy : AppIngestPolicy}
    (h : ingestPolicy source named = .ok policy) (honline : policy.keystore = .ok .ONLINE) :
    source.critical = false := by
  rw [← (ingestPolicy_provenance h).2.1]
  unfold AppIngestPolicy.keystore at honline
  cases hrole : Core.appRolePolicy policy.appId policy.critical with
  | error e => simp [hrole, Except.map] at honline
  | ok role =>
    obtain ⟨-, -, hkeystore⟩ := Core.appRolePolicy_eq_ok hrole
    simp only [hrole, Except.map, hkeystore, Except.ok.injEq] at honline
    cases hcritical : policy.critical with
    | false => rfl
    | true => simp [hcritical] at honline

end DistPlatform.Ingest
