import DistPlatform.Ingest.Signatures
import DistPlatform.Ingest.Worker

/-!
# The published version and the attested one

A poll takes the version it will publish from the forge's release listing and the source ref
from the attestation. This module follows both to the queued publish job and says when they
agree.

## Main definitions

* `attestedPayload` — the payload of an attestation, by the source's route.
* `runPolls` — the publish jobs a sequence of polls queues.
* `PublishesAttested`, `TagAttested` — the agreement, and the inputs for which it holds.
-/

namespace DistPlatform.Ingest

open Fallible
open Registry (Source)

/-! ## What a verified attestation says -/

section Verified

variable {lib : Libraries} {policy : ProvenancePolicy} {raw : Bytes} {artifactSha256 : String}
  {provenance : Provenance}

theorem verifyProvenance_eq_ok
    (h : verifyProvenance lib raw artifactSha256 policy = .ok provenance) :
    ∃ decoded, decodeEnvelope lib raw = .ok decoded ∧
      lib.loads decoded.2.1 = .ok provenance.statement ∧
      provenance.subjectSha256 = lower artifactSha256 ∧
      attestedSource policy.projectUrl provenance.statement =
        some (provenance.sourceUri, provenance.sourceRef) := by
  simp only [verifyProvenance, verifyEnvelope, bind_eq_ok] at h
  obtain ⟨⟨statement, builderId⟩, ⟨decoded, hdecoded, htry⟩, hcheck⟩ := h
  obtain ⟨-, -, rfl, hsha, hsource, -⟩ := checkStatement_eq_ok hcheck
  obtain ⟨-, -, -, -, -, -, -, hstatement, -⟩ := trySignatures_eq_ok_iff.mp htry
  exact ⟨decoded, hdecoded, statementOf_eq_ok hstatement, hsha, hsource⟩

end Verified

section Attested

variable {ports : IngestPorts} {source : Source} {policy : ProvenancePolicy}
  {envelope : Bytes} {sha256 : String} {provenance : Provenance}

/-- The payload inside an attestation, on the route the source's forge signs with. -/
def attestedPayload (ports : IngestPorts) (source : Source) (envelope : Bytes) : Option Bytes :=
  match source.forge with
  | .GITHUB => (ports.sigstore.bundleFromJson envelope).toOption.map (·.payload)
  | .GITLAB => (decodeEnvelope ports.lib envelope).toOption.map (·.2.1)

theorem provenancePolicy_eq_ok (h : provenancePolicy source = .ok policy) :
    policy.projectUrl = source.projectUrl ∧
      (policy.trustedIdentities ≠ [] ↔ source.forge = .GITHUB) := by
  unfold provenancePolicy at h
  split at h
  next hforge =>
    split at h
    · obtain rfl := Except.ok.inj h
      simp [hforge]
    · cases h
  next hforge =>
    split at h
    · obtain rfl := Except.ok.inj h
      simp [hforge]
    · cases h

/-- On either route, a verified provenance is read off the payload of the attestation, for
this very digest. -/
theorem verify_eq_ok (hpolicy : provenancePolicy source = .ok policy)
    (h : verify ports envelope sha256 policy = .ok provenance) :
    ∃ payload, attestedPayload ports source envelope = some payload ∧
      ports.lib.loads payload = .ok provenance.statement ∧
      provenance.subjectSha256 = lower sha256 ∧
      attestedSource source.projectUrl provenance.statement =
        some (provenance.sourceUri, provenance.sourceRef) := by
  obtain ⟨hurl, hroute⟩ := provenancePolicy_eq_ok hpolicy
  unfold verify at h
  unfold attestedPayload
  split at h
  next hids =>
    obtain ⟨bundle, identity, hbundle, -, hcheck⟩ := verifySigstoreProvenance_eq_ok h
    obtain ⟨hloads, -, hsha, hsource, -⟩ := checkPayload_eq_ok hcheck
    exact ⟨bundle.payload, by simp [hroute.mp hids, hbundle, Except.toOption], hloads, hsha,
      hurl ▸ hsource⟩
  next hids =>
    obtain ⟨decoded, hdecoded, hloads, hsha, hsource⟩ := verifyProvenance_eq_ok h
    have hforge : source.forge = .GITLAB := by
      cases hf : source.forge with
      | GITHUB => exact absurd (hroute.mpr hf) hids
      | GITLAB => rfl
    exact ⟨decoded.2.1, by simp [hforge, hdecoded, Except.toOption], hloads, hsha,
      hurl ▸ hsource⟩

end Attested

/-! ## The publish jobs of a run -/

/-- One poll of a run: the source as it is then, and the forge's answers to it. -/
structure PollInput where
  source : Source
  skipNamed : List String
  answers : ForgeAnswers

/-- A publish job, with the poll it came from. -/
structure Queued where
  input : PollInput
  polled : Polled
  payload : PublishPayload

/-- The publish jobs that a sequence of polls hands off, in order. -/
def runPolls (ports : IngestPorts) : List PollInput → Quarantine → List Queued
  | [], _ => []
  | input :: inputs, quarantine =>
    match poll ports input.skipNamed input.source input.answers quarantine with
    | (.ok (some polled), quarantine') =>
      ((handOffPayload .POLL (.polled (outcomeRecord polled))).map
        fun payload => ⟨input, polled, payload⟩).toList ++ runPolls ports inputs quarantine'
    | (_, quarantine') => runPolls ports inputs quarantine'

/-- The job publishes what was attested: the verified provenance is of this artifact and was
built on the job's tag, and the job's version is that tag's. -/
structure PublishesAttested (queued : Queued) : Prop where
  attested : ∃ provenance, queued.polled.outcome.provenance = some provenance ∧
    provenance.subjectSha256 = lower queued.payload.sha256 ∧
    provenance.sourceRef = "refs/tags/" ++ queued.payload.tag
  version : versionFromTag queued.payload.tag queued.input.source.tagPrefix =
    .ok queued.payload.version

/-- The forge's two answers agree: the ref of the project in the attestation it serves for the
downloaded bytes is that of the tag it lists. -/
def TagAttested (ports : IngestPorts) (input : PollInput) : Prop :=
  ∃ release asset bytes envelope payload statement uri,
    latestRelease input.source input.answers = .ok (some release) ∧
    release.asset input.source.assetName = some asset ∧
    input.answers.download asset = .ok bytes ∧
    input.answers.attestation (ports.lib.sha256 bytes) = .ok (some envelope) ∧
    attestedPayload ports input.source envelope = some payload ∧
    ports.lib.loads payload = .ok statement ∧
    attestedSource input.source.projectUrl statement = some (uri, "refs/tags/" ++ release.tag)

section Run

variable {ports : IngestPorts} {input : PollInput} {quarantine : Quarantine} {polled : Polled}
  {payload : PublishPayload}

theorem attestation_of_orNone {answers : ForgeAnswers} {digest : String} {envelope : Bytes}
    (h : attestationOrNone answers digest = .ok (some envelope)) :
    answers.attestation digest = .ok (some envelope) := by
  unfold attestationOrNone at h
  split at h
  · cases h
  · exact h

/-- One poll: the job it hands off publishes what was attested exactly when the forge's two
answers agree. -/
theorem publishesAttested_of_poll
    (h : (poll ports input.skipNamed input.source input.answers quarantine).1 =
      .ok (some polled))
    (hjob : handOffPayload .POLL (.polled (outcomeRecord polled)) = some payload) :
    PublishesAttested ⟨input, polled, payload⟩ ↔ TagAttested ports input := by
  obtain ⟨policy, bytes, envelope, hpolicy, hlisted, hasset, hbytes, henvelope, hingest⟩ :=
    poll_eq_ok h
  obtain ⟨-, record, hrecord, hpromote, htag, hversion, -, hsha⟩ := handOffPayload_eq_some hjob
  obtain rfl := JobResult.polled.inj hrecord
  replace htag : payload.tag = polled.release.tag := htag.symm
  replace hversion : payload.version = polled.release.version := hversion.symm
  obtain ⟨-, admitted, raw, provenance, hadmitted, rfl, hprov, hverify⟩ :=
    ingest_promote hingest hpromote
  have hpolicy := (ingestPolicy_provenance hpolicy).2.2
  obtain ⟨body, hbody, hloads, hsubject, hsource⟩ := verify_eq_ok hpolicy hverify
  have hraw := attestation_of_orNone henvelope
  have hsha : admitted.sha256 = payload.sha256 := by simpa [outcomeRecord, hadmitted] using hsha
  constructor
  · rintro ⟨⟨provenance', hprov', -, href⟩, -⟩
    obtain rfl := Option.some.inj (hprov.symm.trans hprov')
    rw [htag] at href
    exact ⟨_, _, _, _, _, _, _, hlisted, hasset, hbytes, hraw, hbody, hloads, href ▸ hsource⟩
  · rintro ⟨release, asset, bytes', envelope', body', statement, uri, hlisted', hasset', hbytes',
      hraw', hbody', hloads', hsource'⟩
    obtain rfl := Option.some.inj (Except.ok.inj (hlisted.symm.trans hlisted'))
    obtain rfl := Option.some.inj (hasset.symm.trans hasset')
    obtain rfl := Except.ok.inj (hbytes.symm.trans hbytes')
    obtain rfl := Option.some.inj (Except.ok.inj (hraw.symm.trans hraw'))
    obtain rfl := Option.some.inj (hbody.symm.trans hbody')
    obtain rfl := Except.ok.inj (hloads.symm.trans hloads')
    obtain ⟨-, href⟩ := Prod.mk.inj (Option.some.inj (hsource.symm.trans hsource'))
    refine ⟨⟨provenance, hprov, hsha ▸ hsubject, htag ▸ href⟩, ?_⟩
    rw [htag, hversion]
    exact latestRelease_version hlisted

end Run

/-- Over every sequence of polls: each publish job that is queued publishes the attested
version exactly when the forge listed, for that poll, the tag its attestation names. -/
theorem publishesAttested_iff {ports : IngestPorts} {inputs : List PollInput}
    {quarantine : Quarantine} {queued : Queued}
    (h : queued ∈ runPolls ports inputs quarantine) :
    PublishesAttested queued ↔ TagAttested ports queued.input := by
  induction inputs generalizing quarantine with
  | nil => cases h
  | cons input inputs ih =>
    unfold runPolls at h
    split at h
    next polled quarantine' hpoll =>
      rcases List.mem_append.mp h with h | h
      · obtain ⟨payload, hpayload, rfl⟩ := Option.map_eq_some_iff.mp (Option.mem_toList.mp h)
        exact publishesAttested_of_poll (congrArg Prod.fst hpoll) hpayload
      · exact ih h
    · exact ih h

/-! ## A relabelled build -/

def editorSource : Source where
  id := 1
  appId := "editor"
  forge := .GITHUB
  project := "example/editor"
  apiBase := "https://api.github.com"
  projectUrl := "https://github.com/example/editor"
  status := .ACTIVE
  critical := false
  assetName := "editor.zip"
  tagPrefix := "v"
  requireTagRefPrefix := "refs/tags/"
  maxAssetBytes := 1000
  channel := "stable"
  platform := "windows"
  arch := "amd64"
  workflowUri := some editorIdentity.workflowUri
  oidcIssuer := some editorIdentity.issuer
  repositoryId := some "7"
  repositoryOwnerId := some "8"
  runnerEnvironment := "github-hosted"
  builderId := none
  builderKeyid := none
  builderPublicKeyPem := none
  attestationAsset := "provenance.intoto.jsonl"
  lastError := none

/-- A forge that lists the release `tag` with an empty asset, and serves for it the
attestation of the build on `v1.0`. -/
def editorAnswers (tag : String) : ForgeAnswers where
  latest := .ok (some (.obj [("tag_name", .str tag), ("assets", .arr [.obj [
    ("state", .str "uploaded"), ("name", .str "editor.zip"),
    ("browser_download_url", .str "https://github.com/example/editor/editor.zip")]])]))
  project := .ok none
  download _ := .ok []
  attestation _ := .ok (some [123, 125])
  intOf
    | .int i => some i
    | _ => none

def editorInput (tag : String) : PollInput :=
  ⟨editorSource, ["malware", "publisher", "sbom"], editorAnswers tag⟩

def editorPorts : IngestPorts where
  lib := editorLibraries
  sigstore := editorSigstore (editorIdentity.workflowUri ++ "@" ++ "refs/tags/v1.0")
  entries _ := .ok none

def editorPolled (tag version : String) : Polled where
  release := ⟨tag, version,
    [⟨"editor.zip", 0, "https://github.com/example/editor/editor.zip", none⟩]⟩
  asset := ⟨"editor.zip", 0, "https://github.com/example/editor/editor.zip", none⟩
  written := 0
  outcome :=
    { decision := .PROMOTE
      reason := .passed ["malware", "publisher", "sbom"] editorProvenance.builderId
        "refs/tags/v1.0"
      admitted := some ⟨emptySha256, 0⟩
      provenance := some editorProvenance
      archive := none
      skippedGates := ["malware", "publisher", "sbom"] }

theorem runPolls_editor :
    runPolls editorPorts [editorInput "v1.0"] ⟨1000, []⟩ =
      [⟨editorInput "v1.0", editorPolled "v1.0" "1.0",
        ⟨emptySha256, "1.0", "editor.zip", "v1.0"⟩⟩] := by
  rfl

theorem runPolls_relabelled :
    runPolls editorPorts [editorInput "v2.0"] ⟨1000, []⟩ =
      [⟨editorInput "v2.0", editorPolled "v2.0" "2.0",
        ⟨emptySha256, "2.0", "editor.zip", "v2.0"⟩⟩] := by
  rfl

theorem tagAttested_editor : TagAttested editorPorts (editorInput "v1.0") :=
  ⟨(editorPolled "v1.0" "1.0").release, (editorPolled "v1.0" "1.0").asset, [], [123, 125],
    editorPayload.toUTF8.toList, editorStatement,
    "git+https://github.com/example/editor@refs/tags/v1.0", rfl, rfl, rfl, rfl, rfl, rfl, rfl⟩

theorem publishesAttested_editor :
    PublishesAttested ⟨editorInput "v1.0", editorPolled "v1.0" "1.0",
      ⟨emptySha256, "1.0", "editor.zip", "v1.0"⟩⟩ := by
  have hqueued := List.mem_singleton_self (Queued.mk (editorInput "v1.0")
    (editorPolled "v1.0" "1.0") ⟨emptySha256, "1.0", "editor.zip", "v1.0"⟩)
  rw [← runPolls_editor] at hqueued
  exact (publishesAttested_iff hqueued).mpr tagAttested_editor

/-- An old build under a newly listed tag is queued as the new version. -/
theorem relabelled_build_published :
    ¬ ∀ (ports : IngestPorts) (inputs : List PollInput) (quarantine : Quarantine)
      (queued : Queued), queued ∈ runPolls ports inputs quarantine →
      PublishesAttested queued := by
  intro hclaim
  have hqueued := hclaim editorPorts [editorInput "v2.0"] ⟨1000, []⟩ _
    (runPolls_relabelled ▸ List.mem_singleton_self _)
  obtain ⟨provenance, hprov, -, href⟩ := hqueued.attested
  obtain rfl := Option.some.inj hprov
  exact absurd href (by decide)

end DistPlatform.Ingest
