import DistPlatform.Ingest.OrderIndependence

/-!
# Which failures become decisions

A stage that fails raises its own error, which `ingest` turns into a rejection; any other
exception goes through it. `json.loads` raises more than the `JSONDecodeError` that the callers
catch, and the archive readers raise errors of their own.

## Main definitions

* `Contained` — nothing but a `ProvenanceError` is raised, and its rules.
* `KeyHandled`, `IdentityHandled`, `IngestHandled` — no stage meets an exception it lets through.
* `Malformed` — no acceptable attestation of the artifact, or an archive that does not open.
-/

namespace DistPlatform.Ingest

open Fallible

/-! ## Rules -/

section Rules

variable {α β : Type} {x : Except Raised α} {f : α → Except Raised β}

def Contained (x : Except Raised α) : Prop := ∀ exception, x ≠ .error (.Escaped exception)

@[simp] theorem contained_ok {a : α} : Contained (.ok a) := nofun

@[simp] theorem contained_pure {a : α} : Contained (pure a) := nofun

@[simp] theorem contained_error {reason : ProvenanceError} :
    Contained (.error (.ProvenanceError reason) : Except Raised α) := nofun

@[simp] theorem contained_throw {reason : ProvenanceError} :
    Contained (throw (.ProvenanceError reason) : Except Raised α) := nofun

@[simp] theorem not_contained_escaped {exception : String} :
    ¬ Contained (.error (.Escaped exception) : Except Raised α) := fun h => h exception rfl

@[simp] theorem contained_ensure {p : Prop} [Decidable p] {reason : ProvenanceError} :
    Contained (ensure p (.ProvenanceError reason)) := by
  unfold ensure
  split <;> simp

theorem contained_iff : Contained x ↔
    (∃ a, x = .ok a) ∨ ∃ reason, x = .error (.ProvenanceError reason) := by
  cases x with
  | ok a => simp
  | error e => cases e <;> simp

/-- A sequence is contained where its first step is, and then what follows. -/
theorem contained_bind :
    Contained (x >>= f) ↔ Contained x ∧ ∀ a, x = .ok a → Contained (f a) := by
  cases x with
  | ok a => simp [bind_ok]
  | error e => cases e <;> simp [bind_error]

@[simp] theorem contained_map {g : α → β} : Contained (g <$> x) ↔ Contained x := by
  cases x with
  | ok a => simp [Functor.map, Except.map]
  | error e => cases e <;> simp [Functor.map, Except.map]

end Rules

/-! ## The stages -/

section Stages

variable {lib : Libraries} {raw payload message : Bytes} {artifactSha256 builderId : String}
  {policy : ProvenancePolicy} {entry : Json} {entries : List Json} {statement : Json}

/-- `json.loads` returns, or raises the error that its callers catch. -/
def Handled (lib : Libraries) (raw : Bytes) : Prop :=
  ∀ e, lib.loads raw = .error e → ∃ detail, e = .JSONDecodeError detail

theorem contained_loadsOr {reason : String → ProvenanceError} :
    Contained (loadsOr lib reason raw) ↔ Handled lib raw := by
  unfold loadsOr Handled
  cases hloads : lib.loads raw with
  | ok value => simp
  | error e => cases e <;> simp

theorem contained_decodeEnvelope :
    Contained (decodeEnvelope lib raw) ↔ (raw.length ≤ MAX_ENVELOPE_BYTES → Handled lib raw) := by
  unfold decodeEnvelope
  split
  next hlong => simp [Nat.not_le.mpr hlong]
  next hshort =>
    rw [contained_bind, contained_loadsOr]
    refine ⟨fun h _ => h.1, fun h => ⟨h (Nat.not_lt.mp hshort), fun envelope _ => ?_⟩⟩
    simp only [contained_bind, contained_ensure, true_and]
    intro _ _ _ _
    split
    · exact contained_throw
    · split
      · exact contained_throw
      · split <;> simp

theorem contained_statementOf : Contained (statementOf lib payload) ↔ Handled lib payload := by
  simp [statementOf, contained_bind, contained_loadsOr]

/-- An entry lets an exception through where it selects a builder whose key does not load. -/
theorem contained_verdict : Contained (verdict lib policy message entry) ↔
    ∀ builder signature, candidate lib policy entry = some (builder, signature) →
      ∃ key, lib.loadPemPublicKey builder.publicKeyPem = .ok key := by
  unfold verdict
  cases candidate lib policy entry with
  | none => simp
  | some found =>
    obtain ⟨builder, signature⟩ := found
    dsimp only
    cases hload : lib.loadPemPublicKey builder.publicKeyPem with
    | error exception => simp [hload]
    | ok key =>
      simp only [contained_bind, Option.some.injEq, Prod.mk.injEq]
      refine iff_of_true ⟨?_, fun good _ => ?_⟩ ?_
      · cases key <;> simp [verifySignature]
      · cases good <;> simp
      · rintro _ _ ⟨rfl, rfl⟩
        exact ⟨key, hload⟩

/-- The loop over the signatures lets through what the first entry that it does not pass over
does, and there the payload. -/
theorem contained_trySignatures : Contained (trySignatures lib policy message payload entries) ↔
    ∀ before entry after, entries = before ++ entry :: after →
      (∀ e ∈ before, verdict lib policy message e = .ok none) →
      Contained (verdict lib policy message entry) ∧
        ∀ builder, verdict lib policy message entry = .ok (some builder) →
          Handled lib payload := by
  induction entries with
  | nil =>
    refine iff_of_true contained_error fun before entry after hsplit => ?_
    exact absurd hsplit.symm (List.append_ne_nil_of_right_ne_nil _ (List.cons_ne_nil _ _))
  | cons first entries ih =>
    rw [trySignatures_cons, contained_bind]
    constructor
    · rintro ⟨hfirst, hrest⟩ before entry after hsplit hbefore
      cases before with
      | nil =>
        obtain ⟨rfl, rfl⟩ := List.cons.inj hsplit
        refine ⟨hfirst, fun builder hbuilder => ?_⟩
        have hstatement := hrest _ hbuilder
        rw [contained_bind, contained_statementOf] at hstatement
        exact hstatement.1
      | cons skipped before =>
        obtain ⟨rfl, rfl⟩ := List.cons.inj hsplit
        exact ih.mp (hrest _ (hbefore _ List.mem_cons_self)) before entry after rfl
          fun e he => hbefore e (List.mem_cons_of_mem _ he)
    · intro h
      obtain ⟨hfirst, hpayload⟩ := h [] first entries rfl nofun
      refine ⟨hfirst, fun found hfound => ?_⟩
      cases found with
      | none =>
        refine ih.mpr fun before entry after hsplit hbefore => ?_
        refine h (first :: before) entry after (congrArg _ hsplit) fun e he => ?_
        obtain rfl | he := List.mem_cons.mp he
        · exact hfound
        · exact hbefore e he
      | some builder =>
        simpa [contained_statementOf] using hpayload builder hfound

theorem contained_checkStatement :
    Contained (checkStatement statement builderId artifactSha256 policy) := by
  simp only [checkStatement, contained_bind, contained_ensure, true_and]
  intro _ _ _ _
  refine ⟨?_, fun _ _ => ⟨?_, fun _ _ => ⟨?_, fun _ _ => contained_pure⟩⟩⟩
  · unfold checkBuilderClaim
    split <;> simp
  · unfold subjectDigest
    repeat' split
    all_goals simp
  · unfold sourceOf
    repeat' split
    all_goals simp

end Stages

/-! ## The routes -/

section Routes

variable (sigstore : Sigstore) (lib : Libraries) (raw : Bytes) (artifactSha256 : String)
  (policy : ProvenancePolicy)

/-- The envelope is too long or `json.loads` handles it, and at the first signature that is not
passed over the builder's key loads and, where the signature is valid, `json.loads` handles the
payload. -/
structure KeyHandled : Prop where
  envelope : raw.length ≤ MAX_ENVELOPE_BYTES → Handled lib raw
  keys : ∀ payloadType payload before entry after,
    decodeEnvelope lib raw = .ok (payloadType, payload, before ++ entry :: after) →
    (∀ e ∈ before, verdict lib policy (pae payloadType payload) e = .ok none) →
    ∀ builder signature, candidate lib policy entry = some (builder, signature) →
      ∃ key, lib.loadPemPublicKey builder.publicKeyPem = .ok key
  payload : ∀ payloadType payload before entry after builder,
    decodeEnvelope lib raw = .ok (payloadType, payload, before ++ entry :: after) →
    (∀ e ∈ before, verdict lib policy (pae payloadType payload) e = .ok none) →
    verdict lib policy (pae payloadType payload) entry = .ok (some builder) → Handled lib payload

/-- `json.loads` handles the payload that a trusted certificate has signed. -/
def IdentityHandled : Prop :=
  ∀ bundle identity, loadBundle sigstore raw = .ok bundle →
    acceptingIdentity sigstore bundle policy = some identity →
    bundle.payloadType = DSSE_BUNDLE_PAYLOAD_TYPE → Handled lib bundle.payload

variable {sigstore lib raw artifactSha256 policy}

theorem contained_verifyProvenance :
    Contained (verifyProvenance lib raw artifactSha256 policy) ↔ KeyHandled lib raw policy := by
  simp only [verifyProvenance, verifyEnvelope, contained_bind, contained_checkStatement,
    contained_decodeEnvelope, contained_trySignatures, contained_verdict, implies_true, and_true]
  constructor
  · rintro ⟨henvelope, hentries⟩
    refine ⟨henvelope, fun payloadType payload before entry after hdecoded hbefore => ?_,
      fun payloadType payload before entry after builder hdecoded hbefore => ?_⟩
    · exact (hentries _ hdecoded before entry after rfl hbefore).1
    · exact (hentries _ hdecoded before entry after rfl hbefore).2 builder
  · rintro ⟨henvelope, hkeys, hpayload⟩
    refine ⟨henvelope, ?_⟩
    rintro ⟨payloadType, payload, _⟩ hdecoded before entry after rfl hbefore
    exact ⟨hkeys payloadType payload before entry after hdecoded hbefore,
      fun builder => hpayload payloadType payload before entry after builder hdecoded hbefore⟩

theorem contained_checkPayload {identity : CertificateIdentity} {payloadType : String}
    {payload : Bytes} :
    Contained (checkPayload lib identity payloadType payload artifactSha256 policy) ↔
      (payloadType = DSSE_BUNDLE_PAYLOAD_TYPE → Handled lib payload) := by
  have hbuilder (statement : Json) : Contained (statementBuilderId statement) := by
    unfold statementBuilderId
    split <;> simp
  simp only [checkPayload, contained_bind, contained_ensure, contained_statementOf, hbuilder,
    contained_checkStatement, ensure_eq_ok, implies_true, and_true, true_and, forall_const]

theorem contained_tryIdentities {bundle : Bundle} {identities : List CertificateIdentity}
    {failures : List String} :
    Contained (tryIdentities sigstore lib bundle artifactSha256 policy identities failures) ↔
      ∀ identity, identities.find? (authenticates sigstore bundle) = some identity →
        bundle.payloadType = DSSE_BUNDLE_PAYLOAD_TYPE → Handled lib bundle.payload := by
  induction identities generalizing failures with
  | nil => exact iff_of_true contained_error nofun
  | cons first identities ih =>
    rw [tryIdentities, verifyDsse_certificatePolicy]
    by_cases hsat : authenticates sigstore bundle first = true
    · rw [List.find?_cons_of_pos hsat, if_pos hsat]
      simp [contained_checkPayload]
    · rw [List.find?_cons_of_neg hsat, if_neg hsat]
      exact ih

theorem contained_verifySigstoreProvenance :
    Contained (verifySigstoreProvenance sigstore lib raw artifactSha256 policy) ↔
      IdentityHandled sigstore lib raw policy := by
  have hload : Contained (loadBundle sigstore raw) := by
    unfold loadBundle
    split
    · exact contained_error
    · split <;> simp
  simp only [verifySigstoreProvenance, contained_bind, contained_ensure, contained_tryIdentities,
    hload, ensure_eq_ok, true_and, forall_const]
  constructor
  · intro h bundle identity hbundle hidentity
    refine h (fun hnone => ?_) bundle hbundle identity hidentity
    rw [acceptingIdentity, hnone] at hidentity
    cases hidentity
  · intro h _ bundle hbundle identity hidentity
    exact h bundle identity hbundle hidentity

end Routes

/-! ## The decision -/

section Decision

variable (ports : IngestPorts) (policy : AppIngestPolicy)

/-- What the route of the policy lets through. -/
def VerifyHandled (raw : Bytes) : Prop :=
  if policy.provenance.trustedIdentities ≠ [] then
    IdentityHandled ports.sigstore ports.lib raw policy.provenance
  else KeyHandled ports.lib raw policy.provenance

/-- Some single builder, or identity, attests the artifact. -/
def Acceptable (raw artifact : Bytes) : Prop :=
  if policy.provenance.trustedIdentities ≠ [] then
    IdentityAcceptable ports.sigstore ports.lib raw (ports.lib.sha256 artifact) policy.provenance
  else KeyAcceptable ports.lib raw (ports.lib.sha256 artifact) policy.provenance

def Malformed (artifact : Bytes) (envelope : Option Bytes) : Prop :=
  (∀ raw, envelope = some raw → ¬ Acceptable ports policy raw artifact) ∨
    ∃ exception, ports.entries artifact = .error exception

/-- The verification is contained; where it accepts, the archive opens; and where the gates pass,
the application has a valid id. -/
structure IngestHandled (artifact raw : Bytes) (sbom : Option Bytes) : Prop where
  verification : VerifyHandled ports policy raw
  archive : ∀ provenance,
    verify ports raw (ports.lib.sha256 artifact) policy.provenance = .ok provenance →
    ∃ listed, ports.entries artifact = .ok listed
  keystore : ∀ provenance listed report skipped,
    verify ports raw (ports.lib.sha256 artifact) policy.provenance = .ok provenance →
    ports.entries artifact = .ok listed →
    inspectArchive policy.archiveLimits artifact.length listed = .ok report →
    runContentGates artifact policy.appId policy.contentGates sbom = .ok skipped →
    ∃ keystore, policy.keystore = .ok keystore

variable {ports policy} {raw artifact : Bytes} {envelope sbom : Option Bytes} {admitted : Admitted}
  {outcome : Outcome}

theorem contained_verify {sha256 : String} :
    Contained (verify ports raw sha256 policy.provenance) ↔ VerifyHandled ports policy raw := by
  unfold verify VerifyHandled
  split
  · exact contained_verifySigstoreProvenance
  · exact contained_verifyProvenance

theorem acceptable_of_verify {provenance : Provenance}
    (h : verify ports raw (ports.lib.sha256 artifact) policy.provenance = .ok provenance) :
    Acceptable ports policy raw artifact := by
  unfold verify at h
  unfold Acceptable
  split at h
  next hroute =>
    rw [if_pos hroute]
    exact identityAcceptable_of_accepted ⟨provenance, h⟩
  next hroute =>
    rw [if_neg hroute]
    exact keyAcceptable_of_accepted ⟨provenance, h⟩

/-- Both gates on an archive that opens. -/
def gatesOn (policy : AppIngestPolicy) (artifact : Bytes) (sbom : Option Bytes)
    (listed : Option (List (String × Int))) :
    Except GateError (Option ArchiveReport × List String) := do
  let archive ← inspectArchive policy.archiveLimits artifact.length listed
  let skipped ← runContentGates artifact policy.appId policy.contentGates sbom
  return (archive, skipped)

theorem runGates_of_listed {listed : Option (List (String × Int))}
    (h : ports.entries artifact = .ok listed) :
    runGates ports policy artifact sbom = .ok (gatesOn policy artifact sbom listed) := by
  rw [runGates, h]
  rfl

theorem decideAdmitted_decides (hsha : admitted.sha256 = ports.lib.sha256 artifact) :
    (∃ outcome, decideAdmitted ports policy admitted artifact envelope sbom = .ok outcome) ↔
      ∀ raw, envelope = some raw → raw ≠ [] → IngestHandled ports policy artifact raw sbom := by
  unfold decideAdmitted
  split
  · exact iff_of_true ⟨_, rfl⟩ nofun
  · refine iff_of_true ⟨_, rfl⟩ fun raw hraw hne => ?_
    exact absurd (Option.some.inj hraw).symm hne
  next raw hne =>
    simp only [Option.some.injEq, forall_eq', hsha]
    cases hverify : verify ports raw (ports.lib.sha256 artifact) policy.provenance with
    | error e =>
      cases e with
      | Escaped exception =>
        refine iff_of_false (by simp) fun h => ?_
        exact contained_verify.mpr (h hne).verification exception hverify
      | ProvenanceError reason =>
        refine iff_of_true ⟨_, rfl⟩ fun _ => ⟨?_, ?_, ?_⟩
        · rw [← contained_verify, hverify]
          exact contained_error
        · intro provenance haccepted
          simp [hverify] at haccepted
        · intro provenance _ _ _ haccepted
          simp [hverify] at haccepted
    | ok provenance =>
      have hcontained : VerifyHandled ports policy raw := by
        rw [← contained_verify, hverify]
        exact contained_ok
      dsimp only
      cases hlisted : ports.entries artifact with
      | error exception =>
        have hclosed : runGates ports policy artifact sbom = .error exception := by
          rw [runGates, hlisted]
        rw [hclosed]
        refine iff_of_false (by simp) fun h => ?_
        obtain ⟨listed, hopens⟩ := (h hne).archive provenance hverify
        simp [hlisted] at hopens
      | ok listed =>
        have harchive : ∀ provenance,
            verify ports raw (ports.lib.sha256 artifact) policy.provenance = .ok provenance →
            ∃ listed, ports.entries artifact = .ok listed := fun _ _ => ⟨listed, hlisted⟩
        rw [runGates_of_listed hlisted]
        cases hgates : gatesOn policy artifact sbom listed with
        | error reason =>
          refine iff_of_true ⟨_, rfl⟩ fun _ => ⟨hcontained, harchive, ?_⟩
          intro _ listed' report skipped _ hlisted' hreport hskipped
          obtain rfl := Except.ok.inj (hlisted.symm.trans hlisted')
          rw [gatesOn, hreport, bind_ok, hskipped, bind_ok] at hgates
          cases hgates
        | ok passed =>
          obtain ⟨archive, skipped⟩ := passed
          simp only [gatesOn, bind_eq_ok, pure_eq_ok, Prod.mk.injEq] at hgates
          obtain ⟨report, hreport, names, hskipped, rfl, rfl⟩ := hgates
          dsimp only
          cases hkeystore : policy.keystore with
          | error e =>
            refine iff_of_false (by simp) fun h => ?_
            obtain ⟨keystore, hvalid⟩ := (h hne).keystore _ _ _ _ hverify hlisted hreport hskipped
            simp [hkeystore] at hvalid
          | ok keystore =>
            refine iff_of_true ?_ fun _ => ⟨hcontained, harchive, ?_⟩
            · cases keystore <;> exact ⟨_, rfl⟩
            · exact fun _ _ _ _ _ _ _ _ => ⟨keystore, hkeystore⟩

/-- Only what has an attestation and an archive that opens is not rejected. -/
theorem decideAdmitted_rejects (hsha : admitted.sha256 = ports.lib.sha256 artifact)
    (h : decideAdmitted ports policy admitted artifact envelope sbom = .ok outcome)
    (hmalformed : Malformed ports policy artifact envelope) : outcome.decision = .REJECT := by
  unfold decideAdmitted at h
  split at h
  · exact (congrArg Outcome.decision (Except.ok.inj h)).symm
  · exact (congrArg Outcome.decision (Except.ok.inj h)).symm
  next raw _ =>
    split at h
    · cases h
    · exact (congrArg Outcome.decision (Except.ok.inj h)).symm
    next provenance hverify =>
      rw [hsha] at hverify
      obtain hattested | ⟨exception, hclosed⟩ := hmalformed
      · exact absurd (acceptable_of_verify hverify) (hattested _ rfl)
      · rw [runGates, hclosed] at h
        cases h

/-- An artifact that is delivered is stored and decided about, or is over the limit. -/
theorem ingest_delivered {quarantine : Quarantine} {chunks : List Bytes} :
    (ingest ports (chunks.map .ok) policy quarantine envelope sbom).1 =
      if quarantine.maxBytes < (delivered chunks).length then
        .ok { decision := .REJECT, reason := .notAdmitted quarantine.maxBytes }
      else decideAdmitted ports policy
        ⟨ports.lib.sha256 (delivered chunks), (delivered chunks).length⟩ (delivered chunks)
        envelope sbom := by
  rw [ingest, Quarantine.admitStream, readAll_map_ok (Nat.zero_le _), List.nil_append]
  by_cases hover : quarantine.maxBytes < (delivered chunks).length
  · rw [if_pos hover, if_pos hover]
  · rw [if_neg hover, if_neg hover]
    dsimp only
    rw [Quarantine.read_put, Option.getD_some]

/-- Python's libraries on bytes that are no text. -/
def undecodablePorts : IngestPorts :=
  { keyedPorts with lib := { keyedPorts.lib with loads := fun _ => .error .UnicodeDecodeError } }

end Decision

end DistPlatform.Ingest
