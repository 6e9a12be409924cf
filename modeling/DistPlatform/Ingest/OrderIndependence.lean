import DistPlatform.Ingest.Soundness

/-!
# Whom an attestation is accepted from

Both routes search a list and let the first match decide: the first signature that a trusted
builder's key verifies, the first identity whose certificate policy holds. What should decide is
whether some single builder, or identity, satisfies everything; that has no order.

## Main definitions

* `KeyAcceptable`, `IdentityAcceptable` — some single builder or identity satisfies everything.
* `KeyLeads`, `IdentityLeads` — the first match is one the statement claims.
* `Adds`, `AddsIdentities` — the same case with more in it, in any order.
-/

namespace DistPlatform.Ingest

open Fallible

/-! ## Fixed keys -/

section Keys

variable {lib : Libraries} {raw raw' : Bytes} {artifactSha256 : String}
  {policy policy' : ProvenancePolicy} {statement : Json} {builderId : String}

/-- A trusted builder has signed the envelope, and its payload is a statement that claims this
builder and passes. -/
def KeyAcceptable (lib : Libraries) (raw : Bytes) (artifactSha256 : String)
    (policy : ProvenancePolicy) : Prop :=
  ∃ payloadType payload signatures entry builder statement provenance,
    decodeEnvelope lib raw = .ok (payloadType, payload, signatures) ∧ entry ∈ signatures ∧
    builder ∈ policy.trustedBuilders ∧ Signs lib (pae payloadType payload) entry builder ∧
    statementOf lib payload = .ok statement ∧
    checkStatement statement builder.builderId artifactSha256 policy = .ok provenance

/-- The first signature that is not passed over is valid, and of a builder with the id that the
statement claims. -/
def KeyLeads (lib : Libraries) (raw : Bytes) (policy : ProvenancePolicy) : Prop :=
  ∃ payloadType payload before entry after builder statement,
    decodeEnvelope lib raw = .ok (payloadType, payload, before ++ entry :: after) ∧
    (∀ e ∈ before, verdict lib policy (pae payloadType payload) e = .ok none) ∧
    verdict lib policy (pae payloadType payload) entry = .ok (some builder) ∧
    statementOf lib payload = .ok statement ∧
    claimedBuilder statement = some (.str builder.builderId)

/-- The envelope has at least these signatures and the policy at least these builders, in any
order; all else is the same. -/
structure Adds (lib : Libraries) (raw : Bytes) (policy : ProvenancePolicy) (raw' : Bytes)
    (policy' : ProvenancePolicy) : Prop where
  signatures : ∀ payloadType payload signatures,
    decodeEnvelope lib raw = .ok (payloadType, payload, signatures) →
      ∃ signatures', decodeEnvelope lib raw' = .ok (payloadType, payload, signatures') ∧
        signatures ⊆ signatures'
  builders : policy.trustedBuilders ⊆ policy'.trustedBuilders
  projectUrl : policy'.projectUrl = policy.projectUrl
  requireTagRefPrefix : policy'.requireTagRefPrefix = policy.requireTagRefPrefix

theorem checkStatement_congr (hurl : policy'.projectUrl = policy.projectUrl)
    (hstarts : policy'.requireTagRefPrefix = policy.requireTagRefPrefix) :
    checkStatement statement builderId artifactSha256 policy' =
      checkStatement statement builderId artifactSha256 policy := by
  simp only [checkStatement, sourceOf, hurl, hstarts]

theorem verifyProvenance_eq_ok_iff :
    (∃ provenance, verifyProvenance lib raw artifactSha256 policy = .ok provenance) ↔
      ∃ payloadType payload before entry after builder statement provenance,
        decodeEnvelope lib raw = .ok (payloadType, payload, before ++ entry :: after) ∧
        (∀ e ∈ before, verdict lib policy (pae payloadType payload) e = .ok none) ∧
        verdict lib policy (pae payloadType payload) entry = .ok (some builder) ∧
        statementOf lib payload = .ok statement ∧
        checkStatement statement builder.builderId artifactSha256 policy = .ok provenance := by
  constructor
  · rintro ⟨provenance, h⟩
    simp only [verifyProvenance, verifyEnvelope, bind_eq_ok] at h
    obtain ⟨⟨statement, _⟩, ⟨⟨payloadType, payload, signatures⟩, hdecoded, htry⟩, hcheck⟩ := h
    obtain ⟨before, entry, after, builder, rfl, hbefore, hentry, hstatement, rfl⟩ :=
      trySignatures_eq_ok_iff.mp htry
    exact ⟨payloadType, payload, before, entry, after, builder, statement, provenance, hdecoded,
      hbefore, hentry, hstatement, hcheck⟩
  · rintro ⟨payloadType, payload, before, entry, after, builder, statement, provenance, hdecoded,
      hbefore, hentry, hstatement, hcheck⟩
    refine ⟨provenance, ?_⟩
    simp only [verifyProvenance, verifyEnvelope, bind_eq_ok]
    exact ⟨(statement, builder.builderId), ⟨(payloadType, payload, _), hdecoded,
      trySignatures_eq_ok_iff.mpr ⟨before, entry, after, builder, rfl, hbefore, hentry, hstatement,
        rfl⟩⟩, hcheck⟩

/-- What is accepted is acceptable. -/
theorem keyAcceptable_of_accepted
    (h : ∃ provenance, verifyProvenance lib raw artifactSha256 policy = .ok provenance) :
    KeyAcceptable lib raw artifactSha256 policy := by
  obtain ⟨payloadType, payload, before, entry, after, builder, statement, provenance, hdecoded, -,
    hentry, hstatement, hcheck⟩ := verifyProvenance_eq_ok_iff.mp h
  obtain ⟨hbuilder, hsigns⟩ := verdict_eq_some.mp hentry
  exact ⟨payloadType, payload, _, entry, builder, statement, provenance, hdecoded, by simp,
    mem_of_builderForKeyid hbuilder, hsigns, hstatement, hcheck⟩

/-- What is acceptable is accepted exactly where the first match is the one that is claimed. -/
theorem keyAccepted_iff_leads (h : KeyAcceptable lib raw artifactSha256 policy) :
    (∃ provenance, verifyProvenance lib raw artifactSha256 policy = .ok provenance) ↔
      KeyLeads lib raw policy := by
  constructor
  · intro haccepted
    obtain ⟨payloadType, payload, before, entry, after, builder, statement, provenance, hdecoded,
      hbefore, hentry, hstatement, hcheck⟩ := verifyProvenance_eq_ok_iff.mp haccepted
    exact ⟨payloadType, payload, before, entry, after, builder, statement, hdecoded, hbefore,
      hentry, hstatement, (checkStatement_eq_ok hcheck).1⟩
  · rintro ⟨payloadType, payload, before, entry, after, builder, statement, hdecoded, hbefore,
      hentry, hstatement, hclaimed⟩
    obtain ⟨_, _, _, _, other, statement', provenance, hdecoded', -, -, -, hstatement', hcheck⟩ := h
    obtain ⟨-, rfl, -⟩ : _ ∧ payload = _ ∧ _ := by
      simpa using Except.ok.inj (hdecoded.symm.trans hdecoded')
    obtain rfl := Except.ok.inj (hstatement.symm.trans hstatement')
    obtain hsame := (checkStatement_eq_ok hcheck).1
    rw [hclaimed] at hsame
    have hid : builder.builderId = other.builderId := Json.str.inj (Option.some.inj hsame)
    rw [← hid] at hcheck
    exact verifyProvenance_eq_ok_iff.mpr ⟨payloadType, payload, before, entry, after, builder,
      statement, provenance, hdecoded, hbefore, hentry, hstatement, hcheck⟩

/-- Acceptability has no order, and more signatures and builders do not take it away. -/
theorem KeyAcceptable.adds (h : KeyAcceptable lib raw artifactSha256 policy)
    (hadds : Adds lib raw policy raw' policy') :
    KeyAcceptable lib raw' artifactSha256 policy' := by
  obtain ⟨payloadType, payload, signatures, entry, builder, statement, provenance, hdecoded, hentry,
    hbuilder, hsigns, hstatement, hcheck⟩ := h
  obtain ⟨signatures', hdecoded', hsubset⟩ := hadds.signatures _ _ _ hdecoded
  exact ⟨payloadType, payload, signatures', entry, builder, statement, provenance, hdecoded',
    hsubset hentry, hadds.builders hbuilder, hsigns, hstatement,
    (checkStatement_congr hadds.projectUrl hadds.requireTagRefPrefix).trans hcheck⟩

end Keys

/-! ## Certificate identities -/

section Identities

variable {sigstore : Sigstore} {lib : Libraries} {raw : Bytes} {artifactSha256 : String}
  {policy policy' : ProvenancePolicy} {identity identity' : CertificateIdentity} {bundle : Bundle}
  {payloadType : String} {payload : Bytes}

/-- A trusted identity satisfies the certificate policy and covers the builder that the statement
names, and the statement passes. -/
def IdentityAcceptable (sigstore : Sigstore) (lib : Libraries) (raw : Bytes)
    (artifactSha256 : String) (policy : ProvenancePolicy) : Prop :=
  ∃ bundle identity provenance, loadBundle sigstore raw = .ok bundle ∧
    identity ∈ policy.trustedIdentities ∧ authenticates sigstore bundle identity = true ∧
    checkPayload lib identity bundle.payloadType bundle.payload artifactSha256 policy =
      .ok provenance

/-- The first trusted identity that satisfies the certificate policy covers the builder that the
statement names. -/
def IdentityLeads (sigstore : Sigstore) (lib : Libraries) (raw : Bytes)
    (policy : ProvenancePolicy) : Prop :=
  ∃ bundle identity statement builderId, loadBundle sigstore raw = .ok bundle ∧
    acceptingIdentity sigstore bundle policy = some identity ∧
    statementOf lib bundle.payload = .ok statement ∧
    statementBuilderId statement = .ok builderId ∧ identity.matchesBuilder builderId = true

structure AddsIdentities (policy policy' : ProvenancePolicy) : Prop where
  identities : policy.trustedIdentities ⊆ policy'.trustedIdentities
  projectUrl : policy'.projectUrl = policy.projectUrl
  requireTagRefPrefix : policy'.requireTagRefPrefix = policy.requireTagRefPrefix

/-- An identity matters to the payload by the builder it covers, and by nothing else. -/
theorem checkPayload_of_covers {provenance : Provenance} {statement : Json} {builderId : String}
    (h : checkPayload lib identity payloadType payload artifactSha256 policy = .ok provenance)
    (hstatement : statementOf lib payload = .ok statement)
    (hbuilder : statementBuilderId statement = .ok builderId)
    (hcovers : identity'.matchesBuilder builderId = true) :
    checkPayload lib identity' payloadType payload artifactSha256 policy = .ok provenance := by
  simp only [checkPayload, bind_eq_ok, ensure_eq_ok] at h ⊢
  obtain ⟨_, htype, found, hfound, named, hnamed, _, -, hcheck⟩ := h
  obtain rfl := Except.ok.inj (hstatement.symm.trans hfound)
  obtain rfl := Except.ok.inj (hbuilder.symm.trans hnamed)
  exact ⟨(), htype, _, hfound, _, hnamed, (), hcovers, hcheck⟩

theorem tryIdentities_of_find {identities : List CertificateIdentity} {failures : List String}
    (h : identities.find? (authenticates sigstore bundle) = some identity) :
    tryIdentities sigstore lib bundle artifactSha256 policy identities failures =
      checkPayload lib identity bundle.payloadType bundle.payload artifactSha256 policy := by
  induction identities generalizing failures with
  | nil => cases h
  | cons first identities ih =>
    rw [tryIdentities, verifyDsse_certificatePolicy]
    by_cases hsat : authenticates sigstore bundle first = true
    · rw [List.find?_cons_of_pos hsat] at h
      obtain rfl := Option.some.inj h
      rw [if_pos hsat]
    · rw [List.find?_cons_of_neg hsat] at h
      rw [if_neg hsat]
      exact ih h

theorem verifySigstoreProvenance_eq_ok_iff :
    (∃ provenance, verifySigstoreProvenance sigstore lib raw artifactSha256 policy =
        .ok provenance) ↔
      ∃ bundle identity provenance, loadBundle sigstore raw = .ok bundle ∧
        acceptingIdentity sigstore bundle policy = some identity ∧
        checkPayload lib identity bundle.payloadType bundle.payload artifactSha256 policy =
          .ok provenance := by
  constructor
  · rintro ⟨provenance, h⟩
    simp only [verifySigstoreProvenance, bind_eq_ok, ensure_eq_ok] at h
    obtain ⟨-, -, bundle, hbundle, htry⟩ := h
    obtain ⟨identity, hfind, hcheck⟩ := tryIdentities_eq_ok htry
    exact ⟨bundle, identity, provenance, hbundle, hfind, hcheck⟩
  · rintro ⟨bundle, identity, provenance, hbundle, hfind, hcheck⟩
    refine ⟨provenance, ?_⟩
    simp only [verifySigstoreProvenance, bind_eq_ok, ensure_eq_ok]
    refine ⟨(), fun hnone => ?_, bundle, hbundle, (tryIdentities_of_find hfind).trans hcheck⟩
    rw [acceptingIdentity, hnone] at hfind
    cases hfind

theorem identityAcceptable_of_accepted (h : ∃ provenance,
    verifySigstoreProvenance sigstore lib raw artifactSha256 policy = .ok provenance) :
    IdentityAcceptable sigstore lib raw artifactSha256 policy := by
  obtain ⟨bundle, identity, provenance, hbundle, hfind, hcheck⟩ :=
    verifySigstoreProvenance_eq_ok_iff.mp h
  exact ⟨bundle, identity, provenance, hbundle, List.mem_of_find?_eq_some hfind,
    List.find?_some hfind, hcheck⟩

theorem identityAccepted_iff_leads
    (h : IdentityAcceptable sigstore lib raw artifactSha256 policy) :
    (∃ provenance, verifySigstoreProvenance sigstore lib raw artifactSha256 policy =
        .ok provenance) ↔ IdentityLeads sigstore lib raw policy := by
  rw [verifySigstoreProvenance_eq_ok_iff]
  constructor
  · rintro ⟨bundle, identity, provenance, hbundle, hfind, hcheck⟩
    simp only [checkPayload, bind_eq_ok, ensure_eq_ok] at hcheck
    obtain ⟨-, -, statement, hstatement, builderId, hbuilder, -, hcovers, -⟩ := hcheck
    exact ⟨bundle, identity, statement, builderId, hbundle, hfind, hstatement, hbuilder, hcovers⟩
  · rintro ⟨bundle, identity, statement, builderId, hbundle, hfind, hstatement, hbuilder, hcovers⟩
    obtain ⟨other, acceptable, provenance, hother, -, -, hcheck⟩ := h
    obtain rfl := Except.ok.inj (hbundle.symm.trans hother)
    exact ⟨bundle, identity, provenance, hbundle, hfind,
      checkPayload_of_covers hcheck hstatement hbuilder hcovers⟩

theorem IdentityAcceptable.adds (h : IdentityAcceptable sigstore lib raw artifactSha256 policy)
    (hadds : AddsIdentities policy policy') :
    IdentityAcceptable sigstore lib raw artifactSha256 policy' := by
  obtain ⟨bundle, identity, provenance, hbundle, hmem, hauthenticates, hcheck⟩ := h
  refine ⟨bundle, identity, provenance, hbundle, hadds.identities hmem, hauthenticates, ?_⟩
  simp only [checkPayload, checkStatement_congr hadds.projectUrl hadds.requireTagRefPrefix]
  exact hcheck

end Identities

/-! ## The main result -/

section Main

variable (lib : Libraries) (sigstore : Sigstore) (raw : Bytes) (artifactSha256 : String)
  (policy : ProvenancePolicy)

def KeyAccepted : Prop :=
  ∃ provenance, verifyProvenance lib raw artifactSha256 policy = .ok provenance

def IdentityAccepted : Prop :=
  ∃ provenance, verifySigstoreProvenance sigstore lib raw artifactSha256 policy = .ok provenance

/-- On either route, what is accepted is exactly what some single builder or identity satisfies
where the first match is the one that is claimed, and only there; between two such cases, more
signatures and more trusted entries in any order keep what is accepted. -/
theorem order_independent_iff :
    ((KeyAccepted lib raw artifactSha256 policy ↔ KeyAcceptable lib raw artifactSha256 policy) ↔
      (KeyAcceptable lib raw artifactSha256 policy → KeyLeads lib raw policy)) ∧
    ((IdentityAccepted lib sigstore raw artifactSha256 policy ↔
        IdentityAcceptable sigstore lib raw artifactSha256 policy) ↔
      (IdentityAcceptable sigstore lib raw artifactSha256 policy →
        IdentityLeads sigstore lib raw policy)) ∧
    (∀ raw' policy', Adds lib raw policy raw' policy' →
      (KeyAcceptable lib raw' artifactSha256 policy' → KeyLeads lib raw' policy') →
      KeyAccepted lib raw artifactSha256 policy → KeyAccepted lib raw' artifactSha256 policy') ∧
    (∀ policy', AddsIdentities policy policy' →
      (IdentityAcceptable sigstore lib raw artifactSha256 policy' →
        IdentityLeads sigstore lib raw policy') →
      IdentityAccepted lib sigstore raw artifactSha256 policy →
        IdentityAccepted lib sigstore raw artifactSha256 policy') := by
  refine ⟨⟨fun h hacceptable => ?_, fun h => ⟨keyAcceptable_of_accepted, fun hacceptable => ?_⟩⟩,
    ⟨fun h hacceptable => ?_, fun h => ⟨identityAcceptable_of_accepted, fun hacceptable => ?_⟩⟩,
    fun raw' policy' hadds h haccepted => ?_, fun policy' hadds h haccepted => ?_⟩
  · exact (keyAccepted_iff_leads hacceptable).mp (h.mpr hacceptable)
  · exact (keyAccepted_iff_leads hacceptable).mpr (h hacceptable)
  · exact (identityAccepted_iff_leads hacceptable).mp (h.mpr hacceptable)
  · exact (identityAccepted_iff_leads hacceptable).mpr (h hacceptable)
  · have hacceptable := (keyAcceptable_of_accepted haccepted).adds hadds
    exact (keyAccepted_iff_leads hacceptable).mpr (h hacceptable)
  · have hacceptable := (identityAcceptable_of_accepted haccepted).adds hadds
    exact (identityAccepted_iff_leads hacceptable).mpr (h hacceptable)

end Main

/-- The editor's builder, and another one that has signed too. -/
def twoBuilders : ProvenancePolicy :=
  ⟨[editorBuilder, ⟨"https://github.com/example/mirror", "key-2", []⟩],
    "https://github.com/example/editor", "refs/tags/", [], by decide⟩

def twoSignatures : Bytes := (keyedEnvelope ["key-2", "key-1"]).toUTF8.toList

def twoLibraries : Libraries := keyedLibraries ["key-2", "key-1"]

/-- The statement is the editor's and the editor has signed it, but the other builder's signature
stands first. -/
theorem first_signature_decides : ¬ ∀ lib raw artifactSha256 policy,
    (KeyAccepted lib raw artifactSha256 policy ↔ KeyAcceptable lib raw artifactSha256 policy) := by
  intro h
  obtain ⟨hlength, hdiffers⟩ : ¬ MAX_ENVELOPE_BYTES < twoSignatures.length ∧
      twoSignatures.length ≠ editorPayload.utf8ByteSize := by
    decide +kernel
  have hsame : editorPayload.toUTF8.toList.length = editorPayload.utf8ByteSize := by decide +kernel
  have hloads : twoLibraries.loads twoSignatures = .ok (keyedJson ["key-2", "key-1"]) := by
    simp only [twoLibraries, keyedLibraries, if_neg hdiffers]
  have hstatement : twoLibraries.loads editorPayload.toUTF8.toList = .ok editorStatement := by
    simp only [twoLibraries, keyedLibraries, if_pos hsame]
  have hdecoded : decodeEnvelope twoLibraries twoSignatures =
      .ok (DSSE_PAYLOAD_TYPE, editorPayload.toUTF8.toList,
        [.obj [("keyid", .str "key-2"), ("sig", .str "c2lnbmF0dXJl")],
          .obj [("keyid", .str "key-1"), ("sig", .str "c2lnbmF0dXJl")]]) := by
    have hpayload : twoLibraries.b64decode encodedPayload = some editorPayload.toUTF8.toList := by
      simp only [twoLibraries, keyedLibraries, ↓reduceIte]
    have hencoded : (keyedJson ["key-2", "key-1"]).getStr? "payload" = some encodedPayload := rfl
    rw [decodeEnvelope, if_neg hlength, loadsOr, hloads]
    dsimp only [bind, Except.bind, ensure]
    rw [hencoded]
    dsimp only
    rw [hpayload]
    rfl
  have hfound : statementOf twoLibraries editorPayload.toUTF8.toList = .ok editorStatement := by
    rw [statementOf, loadsOr, hstatement]
    rfl
  have hacceptable : KeyAcceptable twoLibraries twoSignatures emptySha256 twoBuilders := by
    refine ⟨_, _, _, .obj [("keyid", .str "key-1"), ("sig", .str "c2lnbmF0dXJl")], editorBuilder,
      _, ⟨editorBuilder.builderId, _, _, _, _, _⟩, hdecoded, by simp, by simp [twoBuilders], ?_,
      hfound, rfl⟩
    exact ⟨rfl, _, _, _, rfl, rfl, rfl, rfl⟩
  obtain ⟨provenance, haccepted⟩ := (h _ _ _ _).mpr hacceptable
  simp only [verifyProvenance, verifyEnvelope, bind_eq_ok] at haccepted
  obtain ⟨found, ⟨envelope, hother, htry⟩, hrest⟩ := haccepted
  obtain rfl := Except.ok.inj (hdecoded.symm.trans hother)
  -- the loop ends at the signature of "key-2"
  have hfirst : verdict twoLibraries twoBuilders (pae DSSE_PAYLOAD_TYPE editorPayload.toUTF8.toList)
      (.obj [("keyid", .str "key-2"), ("sig", .str "c2lnbmF0dXJl")]) =
        .ok (some ⟨"https://github.com/example/mirror", "key-2", []⟩) := rfl
  dsimp only at htry
  rw [trySignatures_cons, hfirst] at htry
  obtain ⟨_, hsome, htry⟩ := bind_eq_ok.mp htry
  obtain rfl := Except.ok.inj hsome
  obtain ⟨statement, hclaims, hpure⟩ := bind_eq_ok.mp htry
  obtain rfl := Except.ok.inj (hfound.symm.trans hclaims)
  obtain rfl := pure_eq_ok.mp hpure
  have hclaimed := (checkStatement_eq_ok hrest).1
  exact absurd hclaimed (by decide)

end DistPlatform.Ingest
