import DistPlatform.Core.Roles
import DistPlatform.Ingest.Attestation
import DistPlatform.Ingest.Gates
import DistPlatform.Ingest.Quarantine

/-!
# Promotion policy (`dist_ingest.policy`)

A candidate is stored and hashed first, then its provenance is verified against that digest,
then the gates run. Where the application's key is offline, automation stops.

## Main definitions

* `Promotion`, `Outcome` — what may be done with a candidate, and why.
* `verify` — the verification route a policy selects.
* `ingest` — the decision.
-/

namespace DistPlatform.Ingest

open DistPlatform.Core (KeyStore ValueError)

inductive Promotion
  | PROMOTE
  | HOLD_FOR_CEREMONY
  | REJECT
  deriving DecidableEq, Repr

structure AppIngestPolicy where
  appId : String
  critical : Bool
  provenance : ProvenancePolicy
  archiveLimits : ArchiveLimits := {}
  contentGates : ContentGates := {}

def AppIngestPolicy.keystore (policy : AppIngestPolicy) : Except ValueError KeyStore :=
  (Core.appRolePolicy policy.appId policy.critical).map (·.keystore)

/-- The reason of an outcome, with what its text quotes. -/
inductive Reason
  | notAdmitted (maxBytes : Nat)
  | noAttestation
  | provenanceRejected (reason : ProvenanceError)
  | gateFailed (reason : GateError)
  | offlineKey (appId : String)
  | passed (skipped : List String) (builderId sourceRef : String)
  deriving DecidableEq

structure Outcome where
  decision : Promotion
  reason : Reason
  admitted : Option Admitted := none
  provenance : Option Provenance := none
  archive : Option ArchiveReport := none
  skippedGates : List String := []
  deriving DecidableEq

/-- What ingestion uses from outside: Python's libraries, sigstore, and the archive readers.
`entries` lists names and sizes of a zip or tar, nothing for other files. -/
structure IngestPorts where
  lib : Libraries
  sigstore : Sigstore
  entries : Bytes → Except String (Option (List (String × Int)))

/-- `_verify`: the policy selects the route, the envelope never does. -/
def verify (ports : IngestPorts) (envelope : Bytes) (sha256 : String)
    (policy : ProvenancePolicy) : Except Raised Provenance :=
  if policy.trustedIdentities ≠ [] then
    verifySigstoreProvenance ports.sigstore ports.lib envelope sha256 policy
  else verifyProvenance ports.lib envelope sha256 policy

/-- Both gates of `ingest`, on the quarantined bytes; the inner error is a `GateError`. -/
def runGates (ports : IngestPorts) (policy : AppIngestPolicy) (artifact : Bytes)
    (sbom : Option Bytes) :
    Except String (Except GateError (Option ArchiveReport × List String)) :=
  match ports.entries artifact with
  | .error exception => .error exception
  | .ok entries => .ok (do
    let archive ← inspectArchive policy.archiveLimits artifact.length entries
    let skipped ← runContentGates artifact policy.appId policy.contentGates sbom
    return (archive, skipped))

/-- The decision about an artifact already in quarantine. An error is an exception that
leaves `ingest`. -/
def decideAdmitted (ports : IngestPorts) (policy : AppIngestPolicy) (admitted : Admitted)
    (artifact : Bytes) (envelope sbom : Option Bytes) : Except String Outcome :=
  match envelope with
  | none | some [] => .ok { decision := .REJECT, reason := .noAttestation, admitted }
  | some envelope =>
    match verify ports envelope admitted.sha256 policy.provenance with
    | .error (.Escaped exception) => .error exception
    | .error (.ProvenanceError reason) =>
      .ok { decision := .REJECT, reason := .provenanceRejected reason, admitted }
    | .ok provenance =>
      match runGates ports policy artifact sbom with
      | .error exception => .error exception
      | .ok (.error reason) =>
        .ok { decision := .REJECT, reason := .gateFailed reason, admitted, provenance }
      | .ok (.ok (archive, skippedGates)) =>
        match policy.keystore with
        | .error e => .error e.message
        | .ok .OFFLINE =>
          .ok { decision := .HOLD_FOR_CEREMONY, reason := .offlineKey policy.appId, admitted,
                provenance, archive, skippedGates }
        | .ok .ONLINE =>
          .ok { decision := .PROMOTE,
                reason := .passed skippedGates provenance.builderId provenance.sourceRef,
                admitted, provenance, archive, skippedGates }

/-- `ingest`, with the quarantine it leaves behind. -/
def ingest (ports : IngestPorts) (source : Reader) (policy : AppIngestPolicy)
    (quarantine : Quarantine) (envelope sbom : Option Bytes) :
    Except String Outcome × Quarantine :=
  match quarantine.admitStream ports.lib source with
  | .error (.Reader exception) => (.error exception, quarantine)
  | .error (.QuarantineError maxBytes) =>
    (.ok { decision := .REJECT, reason := .notAdmitted maxBytes }, quarantine)
  | .ok (admitted, quarantine') =>
    (decideAdmitted ports policy admitted ((quarantine'.read admitted.sha256).getD []) envelope
      sbom, quarantine')

/-! ## What a promotion rests on -/

section Promoted

variable {ports : IngestPorts} {policy : AppIngestPolicy} {envelope sbom : Option Bytes}
  {quarantine : Quarantine} {source : Reader} {outcome : Outcome}

/-- A promoted artifact was admitted, carried an attestation that verified against its
digest, passed the gates, and signs with an online key. -/
theorem decideAdmitted_promote {admitted : Admitted} {artifact : Bytes}
    (h : decideAdmitted ports policy admitted artifact envelope sbom = .ok outcome)
    (hp : outcome.decision = .PROMOTE) :
    outcome.admitted = some admitted ∧ policy.keystore = .ok .ONLINE ∧
      ∃ raw provenance, envelope = some raw ∧ outcome.provenance = some provenance ∧
        verify ports raw admitted.sha256 policy.provenance = .ok provenance := by
  unfold decideAdmitted at h
  split at h
  · cases h; cases hp
  · cases h; cases hp
  next raw _ =>
    split at h
    · cases h
    · cases h; cases hp
    next provenance hverify =>
      split at h
      · cases h
      · cases h; cases hp
      · split at h
        · cases h
        · cases h; cases hp
        next honline =>
          cases h
          exact ⟨rfl, honline, raw, provenance, rfl, rfl, hverify⟩

theorem ingest_promote (h : (ingest ports source policy quarantine envelope sbom).1 = .ok outcome)
    (hp : outcome.decision = .PROMOTE) :
    policy.keystore = .ok .ONLINE ∧ ∃ admitted raw provenance,
      outcome.admitted = some admitted ∧ envelope = some raw ∧
        outcome.provenance = some provenance ∧
        verify ports raw admitted.sha256 policy.provenance = .ok provenance := by
  unfold ingest at h
  split at h
  · cases h
  · cases h; cases hp
  next admitted _ _ =>
    obtain ⟨hadmitted, honline, raw, provenance, henvelope, hprov, hverify⟩ :=
      decideAdmitted_promote h hp
    exact ⟨honline, admitted, raw, provenance, hadmitted, henvelope, hprov, hverify⟩

end Promoted

end DistPlatform.Ingest
