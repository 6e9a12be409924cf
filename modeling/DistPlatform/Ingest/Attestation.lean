import DistPlatform.Ingest.Provenance

/-!
# Certificate-identity provenance (`dist_ingest.attestation`)

On the keyless route a short-lived certificate takes the place of a pinned key. Sigstore
answers whether a bundle is signed under a certificate that satisfies a policy; the rest of
the acceptance is read out of the payload, which the holder of the certificate wrote.

## Main definitions

* `Bundle`, `Certificate`, `verifyDsse` — what sigstore verifies.
* `certificatePolicy` — the clauses one trusted identity asks for.
* `verifySigstoreProvenance` — the whole keyless route.
* `acceptingIdentity` — the identity whose certificate policy lets a bundle in.
-/

namespace DistPlatform.Ingest

open Fallible

/-- The extensions Fulcio wrote, and the subject alternative name `<workflow_uri>@<ref>`. -/
structure Certificate where
  subjectAlternativeName : String
  oidcIssuer : Option String
  workflowRepository : Option String
  sourceRepositoryIdentifier : Option String
  sourceRepositoryOwnerIdentifier : Option String
  runnerEnvironment : Option String
  deriving DecidableEq, Repr

structure Bundle where
  certificate : Certificate
  payloadType : String
  payload : Bytes
  deriving DecidableEq, Repr

/-- What the sigstore package is asked: to parse a bundle, and whether the bundle's signature
is valid under its certificate and that one issued by Fulcio. -/
structure Sigstore where
  bundleFromJson : Bytes → Except String Bundle
  genuine : Bundle → Bool

/-- The sub-policies of `sigstore.verify.policy` in use here. -/
inductive SubPolicy
  | OIDCIssuer (value : String)
  | GitHubWorkflowRepository (value : String)
  | OIDCSourceRepositoryIdentifier (value : String)
  | OIDCSourceRepositoryOwnerIdentifier (value : String)
  | OIDCRunnerEnvironment (value : String)
  deriving DecidableEq, Repr

def SubPolicy.holds (certificate : Certificate) : SubPolicy → Bool
  | .OIDCIssuer value => certificate.oidcIssuer == some value
  | .GitHubWorkflowRepository value => certificate.workflowRepository == some value
  | .OIDCSourceRepositoryIdentifier value =>
    certificate.sourceRepositoryIdentifier == some value
  | .OIDCSourceRepositoryOwnerIdentifier value =>
    certificate.sourceRepositoryOwnerIdentifier == some value
  | .OIDCRunnerEnvironment value => certificate.runnerEnvironment == some value

def DSSE_BUNDLE_PAYLOAD_TYPE := "application/vnd.in-toto+json"
def MAX_BUNDLE_BYTES := 4 * 1024 * 1024

/-- `_certificate_policy`; the subject alternative name is no clause of it. -/
def certificatePolicy (identity : CertificateIdentity) : List SubPolicy :=
  [.OIDCIssuer identity.issuer, .GitHubWorkflowRepository identity.repository,
    .OIDCSourceRepositoryIdentifier identity.repositoryId,
    .OIDCSourceRepositoryOwnerIdentifier identity.repositoryOwnerId,
    .OIDCRunnerEnvironment identity.runnerEnvironment]

section Verify

variable (sigstore : Sigstore) (lib : Libraries)

/-- `Verifier.verify_dsse` with an `AllOf` policy. -/
def verifyDsse (bundle : Bundle) (policy : List SubPolicy) : Except String (String × Bytes) :=
  if sigstore.genuine bundle && policy.all (·.holds bundle.certificate) then
    .ok (bundle.payloadType, bundle.payload)
  else .error "certificate or signature refused"

def loadBundle (raw : Bytes) : Except Raised Bundle :=
  if MAX_BUNDLE_BYTES < raw.length then .error (.ProvenanceError (.bundleTooLarge raw.length))
  else match sigstore.bundleFromJson raw with
    | .error detail => .error (.ProvenanceError (.malformedBundle detail))
    | .ok bundle => .ok bundle

def statementBuilderId (statement : Json) : Except Raised String :=
  match (claimedBuilder statement).bind Json.str? with
  | none | some "" => .error (.ProvenanceError .noBuilderNamed)
  | some claimed => .ok claimed

/-- What follows once `identity`'s certificate policy let the bundle in. -/
def checkPayload (identity : CertificateIdentity) (payloadType : String) (payload : Bytes)
    (artifactSha256 : String) (policy : ProvenancePolicy) : Except Raised Provenance := do
  ensure (payloadType = DSSE_BUNDLE_PAYLOAD_TYPE)
    (.ProvenanceError (.unexpectedPayloadType (some (.str payloadType))))
  let statement ← statementOf lib payload
  let builderId ← statementBuilderId statement
  ensure (identity.matchesBuilder builderId)
    (.ProvenanceError (.builderNotCovered identity.workflowUri builderId))
  checkStatement statement builderId artifactSha256 policy

/-- The `for identity in policy.trusted_identities` loop. -/
def tryIdentities (bundle : Bundle) (artifactSha256 : String) (policy : ProvenancePolicy) :
    List CertificateIdentity → List String → Except Raised Provenance
  | [], failures => .error (.ProvenanceError (.noIdentityVerified failures))
  | identity :: identities, failures =>
    match verifyDsse sigstore bundle (certificatePolicy identity) with
    | .error detail =>
      tryIdentities bundle artifactSha256 policy identities
        (failures ++ [identity.workflowUri ++ ": " ++ detail])
    | .ok (payloadType, payload) =>
      checkPayload lib identity payloadType payload artifactSha256 policy

def verifySigstoreProvenance (bundleJson : Bytes) (artifactSha256 : String)
    (policy : ProvenancePolicy) : Except Raised Provenance := do
  ensure (policy.trustedIdentities ≠ []) (.ProvenanceError .noIdentities)
  let bundle ← loadBundle sigstore bundleJson
  tryIdentities sigstore lib bundle artifactSha256 policy policy.trustedIdentities []

/-- The bundle is genuinely signed under a certificate of this identity. -/
def authenticates (bundle : Bundle) (identity : CertificateIdentity) : Bool :=
  sigstore.genuine bundle && (certificatePolicy identity).all (·.holds bundle.certificate)

/-- The first trusted identity whose certificate policy the bundle satisfies. -/
def acceptingIdentity (bundle : Bundle) (policy : ProvenancePolicy) :
    Option CertificateIdentity :=
  policy.trustedIdentities.find? (authenticates sigstore bundle)

end Verify

/-! ## What acceptance establishes -/

section Accepted

variable {sigstore : Sigstore} {lib : Libraries} {bundle : Bundle} {raw payload : Bytes}
  {artifactSha256 : String} {policy : ProvenancePolicy} {provenance : Provenance}

theorem statementOf_eq_ok {statement : Json} (h : statementOf lib payload = .ok statement) :
    lib.loads payload = .ok statement := by
  simp only [statementOf, bind_eq_ok, pure_eq_ok] at h
  obtain ⟨value, hvalue, -, -, rfl⟩ := h
  unfold loadsOr at hvalue
  split at hvalue <;> simp_all

theorem checkPayload_eq_ok {identity : CertificateIdentity} {payloadType : String}
    (h : checkPayload lib identity payloadType payload artifactSha256 policy = .ok provenance) :
    lib.loads payload = .ok provenance.statement ∧
      identity.matchesBuilder provenance.builderId = true ∧
      provenance.subjectSha256 = lower artifactSha256 ∧
      attestedSource policy.projectUrl provenance.statement =
        some (provenance.sourceUri, provenance.sourceRef) ∧
      Text.startsWith provenance.sourceRef policy.requireTagRefPrefix = true := by
  simp only [checkPayload, bind_eq_ok, ensure_eq_ok] at h
  obtain ⟨-, -, statement, hstatement, builderId, -, -, hcovered, hcheck⟩ := h
  obtain ⟨-, rfl, rfl, hsha, hsource, hstarts⟩ := checkStatement_eq_ok hcheck
  exact ⟨statementOf_eq_ok hstatement, hcovered, hsha, hsource, hstarts⟩

theorem verifyDsse_certificatePolicy (identity : CertificateIdentity) :
    verifyDsse sigstore bundle (certificatePolicy identity) =
      if authenticates sigstore bundle identity then .ok (bundle.payloadType, bundle.payload)
      else .error "certificate or signature refused" := rfl

/-- The loop accepts through the first identity whose certificate policy is satisfied, and
never goes on to another. -/
theorem tryIdentities_eq_ok {identities : List CertificateIdentity} {failures : List String}
    (h : tryIdentities sigstore lib bundle artifactSha256 policy identities failures =
      .ok provenance) :
    ∃ identity, identities.find? (authenticates sigstore bundle) = some identity ∧
      checkPayload lib identity bundle.payloadType bundle.payload artifactSha256 policy =
        .ok provenance := by
  induction identities generalizing failures with
  | nil => cases h
  | cons identity identities ih =>
    rw [tryIdentities, verifyDsse_certificatePolicy] at h
    by_cases hsat : authenticates sigstore bundle identity = true
    · rw [if_pos hsat] at h
      exact ⟨identity, List.find?_cons_of_pos hsat, h⟩
    · rw [if_neg hsat] at h
      obtain ⟨accepted, hfind, hcheck⟩ := ih h
      exact ⟨accepted, (List.find?_cons_of_neg hsat).trans hfind, hcheck⟩

theorem loadBundle_eq_ok (h : loadBundle sigstore raw = .ok bundle) :
    sigstore.bundleFromJson raw = .ok bundle := by
  unfold loadBundle at h
  split at h
  · cases h
  · split at h <;> simp_all

theorem verifySigstoreProvenance_eq_ok
    (h : verifySigstoreProvenance sigstore lib raw artifactSha256 policy = .ok provenance) :
    ∃ bundle identity, sigstore.bundleFromJson raw = .ok bundle ∧
      acceptingIdentity sigstore bundle policy = some identity ∧
      checkPayload lib identity bundle.payloadType bundle.payload artifactSha256 policy =
        .ok provenance := by
  simp only [verifySigstoreProvenance, bind_eq_ok, ensure_eq_ok] at h
  obtain ⟨-, -, bundle, hbundle, htry⟩ := h
  obtain ⟨identity, hfind, hcheck⟩ := tryIdentities_eq_ok htry
  exact ⟨bundle, identity, loadBundle_eq_ok hbundle, hfind, hcheck⟩

end Accepted

/-! ## The certificate's own subject -/

section Binding

variable {sigstore : Sigstore} {lib : Libraries} {raw : Bytes} {artifactSha256 : String}
  {policy : ProvenancePolicy} {provenance : Provenance}

/-- The signing certificate was issued to the trusted workflow of the identity that accepted
it, on the very ref the provenance reports, and that ref is one the policy allows. -/
def CertificateBound (sigstore : Sigstore) (raw : Bytes) (policy : ProvenancePolicy)
    (provenance : Provenance) : Prop :=
  ∃ bundle identity, sigstore.bundleFromJson raw = .ok bundle ∧
    acceptingIdentity sigstore bundle policy = some identity ∧
    bundle.certificate.subjectAlternativeName =
      identity.workflowUri ++ "@" ++ provenance.sourceRef ∧
    Text.startsWith provenance.sourceRef policy.requireTagRefPrefix = true

/-- The payload tells the truth about its certificate: the certificate's subject is the
accepting identity's workflow on the ref that the payload's first dependency from the project
names. -/
def TruthfulPayload (sigstore : Sigstore) (lib : Libraries) (raw : Bytes)
    (policy : ProvenancePolicy) : Prop :=
  ∃ bundle identity statement uri ref, sigstore.bundleFromJson raw = .ok bundle ∧
    acceptingIdentity sigstore bundle policy = some identity ∧
    lib.loads bundle.payload = .ok statement ∧
    attestedSource policy.projectUrl statement = some (uri, ref) ∧
    bundle.certificate.subjectAlternativeName = identity.workflowUri ++ "@" ++ ref

/-- An accepted attestation is bound to its certificate exactly when its payload already
tells the truth about it; nothing in the acceptance compares the two. -/
theorem certificateBound_iff
    (h : verifySigstoreProvenance sigstore lib raw artifactSha256 policy = .ok provenance) :
    CertificateBound sigstore raw policy provenance ↔ TruthfulPayload sigstore lib raw policy := by
  obtain ⟨bundle, identity, hbundle, haccept, hcheck⟩ := verifySigstoreProvenance_eq_ok h
  obtain ⟨hloads, -, -, hsource, hstarts⟩ := checkPayload_eq_ok hcheck
  constructor
  · rintro ⟨bundle', identity', hbundle', haccept', hsubject, -⟩
    obtain rfl := Except.ok.inj (hbundle.symm.trans hbundle')
    exact ⟨bundle, identity', _, _, _, hbundle, haccept', hloads, hsource, hsubject⟩
  · rintro ⟨bundle', identity', statement, uri, ref, hbundle', haccept', hloads', hsource',
      hsubject⟩
    obtain rfl := Except.ok.inj (hbundle.symm.trans hbundle')
    obtain rfl := Except.ok.inj (hloads.symm.trans hloads')
    obtain ⟨-, rfl⟩ := Prod.mk.inj (Option.some.inj (hsource.symm.trans hsource'))
    exact ⟨bundle, identity', hbundle, haccept', hsubject, hstarts⟩

def editorIdentity : CertificateIdentity where
  workflowUri := "https://github.com/example/editor/.github/workflows/release.yml"
  issuer := "https://token.actions.githubusercontent.com"
  repository := "example/editor"
  repositoryId := "7"
  repositoryOwnerId := "8"
  runnerEnvironment := "github-hosted"

def editorPolicy : ProvenancePolicy :=
  ⟨[], "https://github.com/example/editor", "refs/tags/", [editorIdentity], by decide⟩

/-- The digest of the empty file. -/
def emptySha256 : String := "e3b0c44298fc1c149afbf4c8996fb92427ae41e4649b934ca495991b7852b855"

/-- A payload that names the trusted workflow on tag `v1.0`, for the empty file. -/
def editorPayload : String :=
  "\x7b\"_type\":\"https://in-toto.io/Statement/v1\"," ++
  "\"subject\":[\x7b\"digest\":\x7b\"sha256\":\"" ++ emptySha256 ++ "\"\x7d\x7d]," ++
  "\"predicateType\":\"https://slsa.dev/provenance/v1\"," ++
  "\"predicate\":\x7b\"buildDefinition\":\x7b\"resolvedDependencies\":[" ++
  "\x7b\"uri\":\"git+https://github.com/example/editor@refs/tags/v1.0\"\x7d]\x7d," ++
  "\"runDetails\":\x7b\"builder\":\x7b\"id\":\"https://github.com/example/editor/" ++
  ".github/workflows/release.yml@refs/tags/v1.0\"\x7d\x7d\x7d\x7d"

/-- What `json.loads` makes of `editorPayload`. -/
def editorStatement : Json := .obj [
  ("_type", .str "https://in-toto.io/Statement/v1"),
  ("subject", .arr [.obj [("digest", .obj [("sha256", .str emptySha256)])]]),
  ("predicateType", .str "https://slsa.dev/provenance/v1"),
  ("predicate", .obj [
    ("buildDefinition", .obj [("resolvedDependencies",
      .arr [.obj [("uri", .str "git+https://github.com/example/editor@refs/tags/v1.0")]])]),
    ("runDetails", .obj [("builder", .obj [("id", .str
      "https://github.com/example/editor/.github/workflows/release.yml@refs/tags/v1.0")])])])]

/-- A genuine bundle around `editorPayload`, signed by a run of the repository whose
certificate names `subject`. -/
def editorBundle (subject : String) : Bundle where
  certificate := ⟨subject, some "https://token.actions.githubusercontent.com",
    some "example/editor", some "7", some "8", some "github-hosted"⟩
  payloadType := "application/vnd.in-toto+json"
  payload := editorPayload.toUTF8.toList

def editorSigstore (subject : String) : Sigstore :=
  ⟨fun _ => .ok (editorBundle subject), fun _ => true⟩

def editorLibraries : Libraries where
  loads _ := .ok editorStatement
  b64decode _ := none
  loadPemPublicKey _ := .ok (.Ed25519 [])
  verifies _ _ _ := false
  sha256 _ := emptySha256

def editorProvenance : Provenance where
  builderId := "https://github.com/example/editor/.github/workflows/release.yml@refs/tags/v1.0"
  sourceUri := "git+https://github.com/example/editor@refs/tags/v1.0"
  sourceRef := "refs/tags/v1.0"
  subjectName := ""
  subjectSha256 := emptySha256
  statement := editorStatement

theorem editor_accepted (subject : String) :
    verifySigstoreProvenance (editorSigstore subject) editorLibraries [] emptySha256 editorPolicy =
      .ok editorProvenance := by
  rfl

theorem editor_truthful_iff (subject : String) :
    TruthfulPayload (editorSigstore subject) editorLibraries [] editorPolicy ↔
      subject = editorIdentity.workflowUri ++ "@" ++ "refs/tags/v1.0" := by
  have haccept : acceptingIdentity (editorSigstore subject) (editorBundle subject) editorPolicy =
      some editorIdentity := rfl
  have hsource : attestedSource editorPolicy.projectUrl editorStatement =
      some ("git+https://github.com/example/editor@refs/tags/v1.0", "refs/tags/v1.0") := rfl
  constructor
  · rintro ⟨bundle, identity, statement, uri, ref, hbundle, haccept', hloads, hsource', hsubject⟩
    obtain rfl := Except.ok.inj hbundle
    obtain rfl := Option.some.inj (haccept.symm.trans haccept')
    obtain rfl := Except.ok.inj hloads
    obtain ⟨-, rfl⟩ := Prod.mk.inj (Option.some.inj (hsource.symm.trans hsource'))
    exact hsubject
  · intro hsubject
    exact ⟨editorBundle subject, editorIdentity, editorStatement, _, _, rfl, haccept, rfl,
      hsource, hsubject⟩

theorem certificateBound_editor :
    CertificateBound (editorSigstore (editorIdentity.workflowUri ++ "@" ++ "refs/tags/v1.0")) []
      editorPolicy editorProvenance :=
  (certificateBound_iff (editor_accepted _)).mpr ((editor_truthful_iff _).mpr rfl)

/-- A run of another workflow of the repository, on a branch, is accepted once its payload
names the trusted workflow and a tag. -/
theorem other_workflow_accepted :
    ¬ ∀ (sigstore : Sigstore) (lib : Libraries) (raw : Bytes) (artifactSha256 : String)
      (policy : ProvenancePolicy) (provenance : Provenance),
      verifySigstoreProvenance sigstore lib raw artifactSha256 policy = .ok provenance →
      CertificateBound sigstore raw policy provenance := by
  intro hclaim
  obtain ⟨bundle, identity, hbundle, haccept, hsubject, -⟩ := hclaim _ _ _ _ _ _ (editor_accepted
    "https://github.com/example/editor/.github/workflows/test.yml@refs/heads/main")
  obtain rfl := Except.ok.inj hbundle
  obtain rfl : editorIdentity = identity := Option.some.inj haccept
  exact absurd hsubject (by decide)

end Binding

end DistPlatform.Ingest
