import DistPlatform.Core.Roles
import DistPlatform.Library.Json
import DistPlatform.Library.Fallible

/-!
# Provenance verification (`dist_ingest.provenance`)

A DSSE envelope wraps an in-toto statement whose predicate is SLSA provenance. This module
is the fixed-key route and the checks both routes share: the statement's types, its builder
claim, the subject digest of these exact bytes, and the source repository and ref.

## Main definitions

* `ProvenancePolicy`, `TrustedBuilder`, `CertificateIdentity` — what an attestation must say.
* `verifyEnvelope` — the DSSE signature of a trusted builder.
* `sourceOf`, `checkStatement` — what an authenticated statement has to say.
* `verifyProvenance` — the whole fixed-key route.
-/

namespace DistPlatform.Ingest

open Fallible

abbrev Bytes := List UInt8

def IN_TOTO_STATEMENT_V1 := "https://in-toto.io/Statement/v1"
def SLSA_PROVENANCE_V1 := "https://slsa.dev/provenance/v1"
def DSSE_PAYLOAD_TYPE := "application/vnd.in-toto+json"
def MAX_ENVELOPE_BYTES := 1024 * 1024

/-- What `json.loads` raises; `ValueError` is for an integer with too many digits. -/
inductive LoadsError
  | JSONDecodeError (detail : String)
  | UnicodeDecodeError
  | RecursionError
  | ValueError
  deriving DecidableEq, Repr

/-- The reasons of a `ProvenanceError`, with what its message quotes. -/
inductive ProvenanceError
  | envelopeTooLarge (length : Nat)
  | envelopeNotJson (detail : String)
  | envelopeNotObject
  | unexpectedPayloadType (found : Option Json)
  | noPayload
  | payloadNotBase64
  | noSignatures
  | unsupportedKeyType (name : String)
  | payloadNotJson (detail : String)
  | statementNotObject
  | noTrustedSignature
  | unexpectedStatementType (found : Option Json)
  | unexpectedPredicateType (found : Option Json)
  | builderMismatch (claimed : Option Json) (builderId : String)
  | noSubject
  | subjectMismatch (artifactSha256 : String)
  | noPredicate
  | noBuildDefinition
  | noDependencies
  | refNotUnderPrefix (ref requiredPrefix : String)
  | otherProject (projectUrl : String)
  | noIdentities
  | bundleTooLarge (length : Nat)
  | malformedBundle (detail : String)
  | noBuilderNamed
  | builderNotCovered (workflowUri builderId : String)
  | noIdentityVerified (failures : List String)
  deriving DecidableEq

/-- What verification raises: its own error, or an exception nothing in it handles. -/
inductive Raised
  | ProvenanceError (reason : ProvenanceError)
  | Escaped (exception : String)
  deriving DecidableEq

/-- A loaded public key, by the classes `_verify_signature` tells apart. -/
inductive PublicKey
  | Ed25519 (raw : Bytes)
  | EllipticCurve (raw : Bytes)
  | Other (typeName : String)
  deriving DecidableEq, Repr

/-- What ingestion uses of Python's libraries. -/
structure Libraries where
  loads : Bytes → Except LoadsError Json
  b64decode : String → Option Bytes
  loadPemPublicKey : Bytes → Except String PublicKey
  verifies : PublicKey → Bytes → Bytes → Bool
  sha256 : Bytes → String

/-! ## Policy -/

structure TrustedBuilder where
  builderId : String
  keyid : String
  publicKeyPem : Bytes
  deriving DecidableEq, Repr

structure CertificateIdentity where
  workflowUri : String
  issuer : String
  repository : String
  repositoryId : String
  repositoryOwnerId : String
  runnerEnvironment : String
  deriving DecidableEq, Repr

def CertificateIdentity.matchesBuilder (identity : CertificateIdentity) (builderId : String) :
    Bool :=
  Text.startsWith builderId (identity.workflowUri ++ "@")

/-- The constructor refuses a policy that trusts no builder. -/
structure ProvenancePolicy where
  trustedBuilders : List TrustedBuilder
  projectUrl : String
  requireTagRefPrefix : String
  trustedIdentities : List CertificateIdentity
  trustsSome : trustedBuilders ≠ [] ∨ trustedIdentities ≠ []
  deriving DecidableEq

def ProvenancePolicy.builderForKeyid (policy : ProvenancePolicy) (keyid : String) :
    Option TrustedBuilder :=
  policy.trustedBuilders.find? (·.keyid == keyid)

/-- The verified facts about how an artifact was built. -/
structure Provenance where
  builderId : String
  sourceUri : String
  sourceRef : String
  subjectName : String
  subjectSha256 : String
  statement : Json
  deriving DecidableEq

/-! ## The envelope -/

/-- The decimal digits of a length, as `%d` writes them. -/
def decimal (n : Nat) : Bytes := (toString n).toUTF8.toList

/-- `_pae`: the signature covers the payload type and both lengths. -/
def pae (payloadType : String) (payload : Bytes) : Bytes :=
  "DSSEv1 ".toUTF8.toList ++ decimal payloadType.toUTF8.toList.length ++ " ".toUTF8.toList ++
    payloadType.toUTF8.toList ++ " ".toUTF8.toList ++ decimal payload.length ++
    " ".toUTF8.toList ++ payload

section Verify

variable (lib : Libraries)

/-- `_verify_signature`. -/
def verifySignature (key : PublicKey) (signature message : Bytes) : Except Raised Bool :=
  match key with
  | .Other name => .error (.ProvenanceError (.unsupportedKeyType name))
  | key => .ok (lib.verifies key signature message)

/-- `json.loads` where only `JSONDecodeError` is caught; `reason` is what it becomes. -/
def loadsOr (reason : String → ProvenanceError) (raw : Bytes) : Except Raised Json :=
  match lib.loads raw with
  | .ok value => .ok value
  | .error (.JSONDecodeError detail) => .error (.ProvenanceError (reason detail))
  | .error .UnicodeDecodeError => .error (.Escaped "UnicodeDecodeError")
  | .error .RecursionError => .error (.Escaped "RecursionError")
  | .error .ValueError => .error (.Escaped "ValueError")

def decodeEnvelope (raw : Bytes) : Except Raised (String × Bytes × List Json) :=
  if MAX_ENVELOPE_BYTES < raw.length then
    .error (.ProvenanceError (.envelopeTooLarge raw.length))
  else do
    let envelope ← loadsOr lib .envelopeNotJson raw
    ensure envelope.isObj (.ProvenanceError .envelopeNotObject)
    ensure (envelope.get? "payloadType" = some (.str DSSE_PAYLOAD_TYPE))
      (.ProvenanceError (.unexpectedPayloadType (envelope.get? "payloadType")))
    match envelope.getStr? "payload" with
    | none => throw (.ProvenanceError .noPayload)
    | some encoded => match lib.b64decode encoded with
      | none => throw (.ProvenanceError .payloadNotBase64)
      | some payload => match (envelope.get? "signatures").bind Json.arr? with
        | none | some [] => throw (.ProvenanceError .noSignatures)
        | some signatures => return (DSSE_PAYLOAD_TYPE, payload, signatures)

/-- The builder an entry of `signatures` names and its signature; nothing where the loop
passes the entry over. -/
def candidate (policy : ProvenancePolicy) (entry : Json) : Option (TrustedBuilder × Bytes) := do
  let keyid ← entry.getStr? "keyid"
  let encodedSig ← entry.getStr? "sig"
  let builder ← policy.builderForKeyid keyid
  let signature ← lib.b64decode encodedSig
  return (builder, signature)

/-- The statement of a payload whose signature has been verified. -/
def statementOf (payload : Bytes) : Except Raised Json := do
  let statement ← loadsOr lib .payloadNotJson payload
  ensure statement.isObj (.ProvenanceError .statementNotObject)
  return statement

/-- The `for entry in signatures` loop of `_verify_envelope`. -/
def trySignatures (policy : ProvenancePolicy) (message payload : Bytes) :
    List Json → Except Raised (Json × String)
  | [] => .error (.ProvenanceError .noTrustedSignature)
  | entry :: entries =>
    match candidate lib policy entry with
    | none => trySignatures policy message payload entries
    | some (builder, signature) => do
      match lib.loadPemPublicKey builder.publicKeyPem with
      | .error exception => throw (.Escaped exception)
      | .ok key =>
        if ← verifySignature lib key signature message then
          return (← statementOf lib payload, builder.builderId)
        else trySignatures policy message payload entries

def verifyEnvelope (raw : Bytes) (policy : ProvenancePolicy) : Except Raised (Json × String) := do
  let (payloadType, payload, signatures) ← decodeEnvelope lib raw
  trySignatures lib policy (pae payloadType payload) payload signatures

end Verify

/-! ## The statement -/

/-- `statement["predicate"]["runDetails"]["builder"]["id"]`, through the types each step
checks. -/
def claimedBuilder (statement : Json) : Option Json :=
  (((statement.get? "predicate").bind (·.get? "runDetails")).bind (·.get? "builder")).bind
    (·.get? "id")

def checkBuilderClaim (statement : Json) (builderId : String) : Except Raised Unit :=
  if claimedBuilder statement = some (.str builderId) then .ok ()
  else .error (.ProvenanceError (.builderMismatch (claimedBuilder statement) builderId))

/-- `str.lower`; a digest compares equal only where the text is ASCII. -/
def lower (s : String) : String := String.ofList (s.toList.map Char.toLower)

/-- The digest an entry of `subject` declares. -/
def declaredDigest (subject : Json) : Option String :=
  (subject.get? "digest").bind (·.getStr? "sha256")

def subjectDigest (statement : Json) (artifactSha256 : String) :
    Except Raised (String × String) :=
  match (statement.get? "subject").bind Json.arr? with
  | none | some [] => .error (.ProvenanceError .noSubject)
  | some subjects =>
    match subjects.find? fun s => (declaredDigest s).map lower == some (lower artifactSha256) with
    | some subject => .ok ((subject.getStr? "name").getD "", lower artifactSha256)
    | none => .error (.ProvenanceError (.subjectMismatch artifactSha256))

/-- The uri of a dependency that names the project, and the ref behind it. -/
def dependencyRef (projectUrl : String) (dependency : Json) : Option (String × String) := do
  let uri ← dependency.getStr? "uri"
  if Text.startsWith uri ("git+" ++ projectUrl ++ "@") then
    return (uri, String.ofList (uri.toList.drop ("git+" ++ projectUrl ++ "@").toList.length))
  else none

/-- `_source`: the first dependency from the project decides, whatever its ref. -/
def sourceOf (statement : Json) (policy : ProvenancePolicy) : Except Raised (String × String) :=
  match (statement.get? "predicate").filter Json.isObj with
  | none => .error (.ProvenanceError .noPredicate)
  | some predicate => match (predicate.get? "buildDefinition").filter Json.isObj with
    | none => .error (.ProvenanceError .noBuildDefinition)
    | some buildDefinition => match (buildDefinition.get? "resolvedDependencies").bind Json.arr? with
      | none => .error (.ProvenanceError .noDependencies)
      | some dependencies => match dependencies.findSome? (dependencyRef policy.projectUrl) with
        | none => .error (.ProvenanceError (.otherProject policy.projectUrl))
        | some (uri, ref) =>
          if Text.startsWith ref policy.requireTagRefPrefix then .ok (uri, ref)
          else .error (.ProvenanceError (.refNotUnderPrefix ref policy.requireTagRefPrefix))

def checkStatement (statement : Json) (builderId artifactSha256 : String)
    (policy : ProvenancePolicy) : Except Raised Provenance := do
  ensure (statement.get? "_type" = some (.str IN_TOTO_STATEMENT_V1))
    (.ProvenanceError (.unexpectedStatementType (statement.get? "_type")))
  ensure (statement.get? "predicateType" = some (.str SLSA_PROVENANCE_V1))
    (.ProvenanceError (.unexpectedPredicateType (statement.get? "predicateType")))
  checkBuilderClaim statement builderId
  let (subjectName, subjectSha256) ← subjectDigest statement artifactSha256
  let (sourceUri, sourceRef) ← sourceOf statement policy
  return ⟨builderId, sourceUri, sourceRef, subjectName, subjectSha256, statement⟩

def verifyProvenance (lib : Libraries) (envelope : Bytes) (artifactSha256 : String)
    (policy : ProvenancePolicy) : Except Raised Provenance := do
  let (statement, builderId) ← verifyEnvelope lib envelope policy
  checkStatement statement builderId artifactSha256 policy

/-! ## What an accepted statement says -/

/-- The project and ref that the payload of an attestation names first. -/
def attestedSource (projectUrl : String) (statement : Json) : Option (String × String) :=
  (((((statement.get? "predicate").bind (·.get? "buildDefinition")).bind
    (·.get? "resolvedDependencies")).bind Json.arr?).getD []).findSome? (dependencyRef projectUrl)

theorem sourceOf_eq_ok {statement : Json} {policy : ProvenancePolicy} {uri ref : String}
    (h : sourceOf statement policy = .ok (uri, ref)) :
    attestedSource policy.projectUrl statement = some (uri, ref) ∧
      Text.startsWith ref policy.requireTagRefPrefix = true := by
  unfold sourceOf at h
  split at h
  · cases h
  next predicate hpred =>
    split at h
    · cases h
    next buildDefinition hbuild =>
      split at h
      · cases h
      next dependencies hdeps =>
        split at h
        · cases h
        next uri' ref' hfind =>
          split at h
          next hstarts =>
            obtain ⟨rfl, rfl⟩ := Prod.mk.inj (Except.ok.inj h)
            have hpred := (Option.filter_eq_some_iff.mp hpred).1
            have hbuild := (Option.filter_eq_some_iff.mp hbuild).1
            refine ⟨?_, hstarts⟩
            simp [attestedSource, hpred, hbuild, hdeps, hfind]
          · cases h

theorem checkStatement_eq_ok {statement : Json} {builderId artifactSha256 : String}
    {policy : ProvenancePolicy} {provenance : Provenance}
    (h : checkStatement statement builderId artifactSha256 policy = .ok provenance) :
    claimedBuilder statement = some (.str builderId) ∧
      provenance.builderId = builderId ∧ provenance.statement = statement ∧
      provenance.subjectSha256 = lower artifactSha256 ∧
      attestedSource policy.projectUrl statement =
        some (provenance.sourceUri, provenance.sourceRef) ∧
      Text.startsWith provenance.sourceRef policy.requireTagRefPrefix = true := by
  simp only [checkStatement, bind_eq_ok, ensure_eq_ok, pure_eq_ok] at h
  obtain ⟨-, -, -, -, ⟨⟩, hclaim, ⟨name, sha⟩, hsubject, ⟨uri, ref⟩, hsource, rfl⟩ := h
  have hclaim : claimedBuilder statement = some (.str builderId) := by
    unfold checkBuilderClaim at hclaim
    split at hclaim
    · assumption
    · cases hclaim
  have hsha : sha = lower artifactSha256 := by
    unfold subjectDigest at hsubject
    split at hsubject
    · cases hsubject
    · cases hsubject
    · split at hsubject
      · exact (Prod.mk.inj (Except.ok.inj hsubject)).2.symm
      · cases hsubject
  obtain ⟨hattested, hstarts⟩ := sourceOf_eq_ok hsource
  exact ⟨hclaim, rfl, rfl, hsha, hattested, hstarts⟩

end DistPlatform.Ingest
