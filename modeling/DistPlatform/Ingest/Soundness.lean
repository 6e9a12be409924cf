import DistPlatform.Ingest.Signatures

/-!
# What a decision to promote rests on

On the route of a fixed key, a candidate that is not rejected is in quarantine under its own
digest, a trusted builder has signed the statement about it, and every gate has passed or was
left out by name.

## Main definitions

* `Attested`, `WithinLimits`, `Gated` — what is established of the attestation, the archive and
  the content.
* `Sound` — all of it, of an outcome.
-/

namespace DistPlatform.Ingest

open Fallible

/-! ## The properties -/

/-- A trusted builder has signed the payload, and the payload is a statement that passes. -/
structure Attested (lib : Libraries) (policy : ProvenancePolicy) (raw : Bytes) (sha256 : String)
    (provenance : Provenance) : Prop where
  signed : ∃ payloadType payload signatures entry builder,
    decodeEnvelope lib raw = .ok (payloadType, payload, signatures) ∧ entry ∈ signatures ∧
    builder ∈ policy.trustedBuilders ∧ Signs lib (pae payloadType payload) entry builder ∧
    lib.loads payload = .ok provenance.statement ∧ provenance.builderId = builder.builderId
  passes : Passes provenance.statement provenance.builderId sha256 policy

structure WithinLimits (limits : ArchiveLimits) (compressed : Nat)
    (entries : List (String × Int)) : Prop where
  count : entries.length ≤ limits.maxEntries
  names : ∀ entry ∈ entries, checkEntryName entry.1 = .ok ()
  total : ∀ before after, entries = before ++ after →
    (before.map (·.2)).sum ≤ limits.maxTotalUncompressed
  ratio : 0 < compressed ∧ (entries.map (·.2)).sum ≤ limits.maxExpansionRatio * compressed

/-- Every content gate passed, or is left out and listed. -/
structure Gated (gates : ContentGates) (artifact : Bytes) (appId : String) (sbom : Option Bytes)
    (skipped : List String) : Prop where
  malware : "malware" ∈ gates.skip ∧ "malware" ∈ skipped ∨
    ∃ isClean, gates.malware = some isClean ∧ isClean artifact = true
  publisher : "publisher" ∈ gates.skip ∧ "publisher" ∈ skipped ∨
    ∃ matchesExpected, gates.publisher = some matchesExpected ∧
      matchesExpected artifact appId = true
  sbom : "sbom" ∈ gates.skip ∧ "sbom" ∈ skipped ∨ gates.requireSbom = false ∨
    ∃ document, sbom = some document ∧ document ≠ []

/-- What holds of an outcome that is not a rejection, and of the quarantine it leaves: `artifact`
is what the source delivered. -/
structure Sound (ports : IngestPorts) (policy : AppIngestPolicy) (source : Reader)
    (envelope sbom : Option Bytes) (quarantine : Quarantine) (outcome : Outcome) : Prop where
  evidence : ∃ admitted artifact raw provenance listed,
    readAll quarantine.maxBytes source [] = .ok artifact ∧
    outcome.admitted = some admitted ∧ quarantine.read admitted.sha256 = some artifact ∧
      admitted.sha256 = ports.lib.sha256 artifact ∧ admitted.length = artifact.length ∧
    envelope = some raw ∧ outcome.provenance = some provenance ∧
      Attested ports.lib policy.provenance raw admitted.sha256 provenance ∧
    ports.entries artifact = .ok listed ∧
      (∀ entries, listed = some entries →
        WithinLimits policy.archiveLimits artifact.length entries) ∧
    Gated policy.contentGates artifact policy.appId sbom outcome.skippedGates

/-! ## The gates -/

section Gates

variable {limits : ArchiveLimits} {entries : List (String × Int)} {total result : Int}

theorem sumEntries_eq_ok (h : sumEntries limits entries total = .ok result) :
    (∀ entry ∈ entries, checkEntryName entry.1 = .ok ()) ∧
      result = total + (entries.map (·.2)).sum ∧
      ∀ before after, entries = before ++ after → before ≠ [] →
        total + (before.map (·.2)).sum ≤ limits.maxTotalUncompressed := by
  induction entries generalizing total with
  | nil =>
    refine ⟨nofun, ?_, fun before after hsplit hne => ?_⟩
    · rw [← Except.ok.inj h]
      simp
    · exact absurd (List.append_eq_nil_iff.mp hsplit.symm).1 hne
  | cons entry entries ih =>
    obtain ⟨name, size⟩ := entry
    simp only [sumEntries, bind_eq_ok, ensure_eq_ok] at h
    obtain ⟨⟨⟩, hname, -, hfits, hrest⟩ := h
    obtain ⟨hnames, hresult, hprefixes⟩ := ih hrest
    refine ⟨fun entry hentry => ?_, ?_, fun before after hsplit hne => ?_⟩
    · obtain rfl | hentry := List.mem_cons.mp hentry
      · exact hname
      · exact hnames entry hentry
    · rw [hresult, List.map_cons, List.sum_cons]
      omega
    · cases before with
      | nil => exact absurd rfl hne
      | cons first before =>
        obtain ⟨rfl, rfl⟩ := List.cons.inj hsplit
        rw [List.map_cons, List.sum_cons, ← Int.add_assoc]
        cases before with
        | nil => simpa using hfits
        | cons second before => exact hprefixes _ after rfl (List.cons_ne_nil _ _)

theorem inspectArchive_eq_ok {compressed : Nat} {listed : Option (List (String × Int))}
    {report : Option ArchiveReport} (h : inspectArchive limits compressed listed = .ok report)
    (entries : List (String × Int)) (hlisted : listed = some entries) :
    WithinLimits limits compressed entries := by
  subst hlisted
  simp only [inspectArchive, bind_eq_ok, ensure_eq_ok] at h
  obtain ⟨-, hcount, total, hsum, -, hratio, -⟩ := h
  obtain ⟨hnames, rfl, hprefixes⟩ := sumEntries_eq_ok hsum
  rw [Int.zero_add] at hratio
  refine ⟨hcount, hnames, fun before after hsplit => ?_, hratio⟩
  cases before with
  | nil => simp
  | cons first before =>
    have := hprefixes (first :: before) after hsplit (List.cons_ne_nil _ _)
    rwa [Int.zero_add] at this

theorem runGate_eq_ok {gates : ContentGates} {name : String} {answer : Option Bool}
    {notConfigured refused : GateError} {skipped : List String}
    (h : runGate gates name answer notConfigured refused = .ok skipped) :
    name ∈ gates.skip ∧ skipped = [name] ∨ answer = some true ∧ skipped = [] := by
  unfold runGate at h
  split at h
  next hskip => exact .inl ⟨hskip, (Except.ok.inj h).symm⟩
  · split at h
    · cases h
    next passed =>
      cases passed with
      | true => exact .inr ⟨rfl, (Except.ok.inj h).symm⟩
      | false => cases h

theorem runContentGates_eq_ok {gates : ContentGates} {artifact : Bytes} {appId : String}
    {sbom : Option Bytes} {skipped : List String}
    (h : runContentGates artifact appId gates sbom = .ok skipped) :
    Gated gates artifact appId sbom skipped := by
  simp only [runContentGates, bind_eq_ok, pure_eq_ok] at h
  obtain ⟨malware, hmalware, publisher, hpublisher, document, hsbom, rfl⟩ := h
  refine ⟨?_, ?_, ?_⟩
  · obtain ⟨hskip, rfl⟩ | ⟨hanswer, -⟩ := runGate_eq_ok hmalware
    · exact .inl ⟨hskip, by simp⟩
    · obtain ⟨isClean, hconfigured, hclean⟩ := Option.map_eq_some_iff.mp hanswer
      exact .inr ⟨isClean, hconfigured, hclean⟩
  · obtain ⟨hskip, rfl⟩ | ⟨hanswer, -⟩ := runGate_eq_ok hpublisher
    · exact .inl ⟨hskip, by simp⟩
    · obtain ⟨matchesExpected, hconfigured, hmatches⟩ := Option.map_eq_some_iff.mp hanswer
      exact .inr ⟨matchesExpected, hconfigured, hmatches⟩
  · obtain ⟨hskip, rfl⟩ | ⟨hanswer, -⟩ := runGate_eq_ok hsbom
    · exact .inl ⟨hskip, by simp⟩
    · have hanswer := Option.some.inj hanswer
      rw [Bool.or_eq_true, Bool.not_eq_true'] at hanswer
      refine .inr (hanswer.imp_right fun hany => ?_)
      cases sbom with
      | none => cases hany
      | some document => exact ⟨document, rfl, by simpa using hany⟩

end Gates

/-! ## The decision -/

section Decision

variable {ports : IngestPorts} {policy : AppIngestPolicy} {envelope sbom : Option Bytes}
  {quarantine quarantine' : Quarantine} {source : Reader} {outcome : Outcome}

theorem attested_of_verify {raw : Bytes} {sha256 : String} {provenance : Provenance}
    (hroute : policy.provenance.trustedIdentities = [])
    (h : verify ports raw sha256 policy.provenance = .ok provenance) :
    Attested ports.lib policy.provenance raw sha256 provenance := by
  rw [verify, if_neg (not_not.mpr hroute)] at h
  simp only [verifyProvenance, verifyEnvelope, bind_eq_ok] at h
  obtain ⟨⟨statement, builderId⟩, ⟨⟨payloadType, payload, signatures⟩, hdecoded, htry⟩, hcheck⟩ :=
    h
  obtain ⟨before, entry, after, builder, rfl, -, hverdict, hstatement, rfl⟩ :=
    trySignatures_eq_ok_iff.mp htry
  obtain ⟨hbuilder, hsigns⟩ := verdict_eq_some.mp hverdict
  have hpasses := passes_of_checkStatement hcheck
  obtain ⟨-, hid, rfl, -⟩ := checkStatement_eq_ok hcheck
  refine ⟨⟨payloadType, payload, _, entry, builder, hdecoded, by simp,
    mem_of_builderForKeyid hbuilder, hsigns, statementOf_eq_ok hstatement, hid⟩, ?_⟩
  rw [hid]
  exact hpasses

/-- A critical application's key is never online. -/
theorem critical_of_online (h : policy.keystore = .ok .ONLINE) : policy.critical = false := by
  unfold AppIngestPolicy.keystore at h
  cases hpolicy : Core.appRolePolicy policy.appId policy.critical with
  | error e =>
    rw [hpolicy] at h
    cases h
  | ok role =>
    rw [hpolicy] at h
    have hkeystore := (Core.appRolePolicy_eq_ok hpolicy).2.2
    have honline : role.keystore = .ONLINE := Except.ok.inj h
    rw [honline] at hkeystore
    cases hcritical : policy.critical with
    | false => rfl
    | true =>
      rw [hcritical] at hkeystore
      cases hkeystore

theorem decideAdmitted_sound {admitted : Admitted} {artifact : Bytes}
    (hroute : policy.provenance.trustedIdentities = [])
    (hread : readAll quarantine.maxBytes source [] = .ok artifact)
    (hstored : quarantine.read admitted.sha256 = some artifact)
    (hsha : admitted.sha256 = ports.lib.sha256 artifact)
    (hlength : admitted.length = artifact.length)
    (h : decideAdmitted ports policy admitted artifact envelope sbom = .ok outcome)
    (hkept : outcome.decision ≠ .REJECT) :
    Sound ports policy source envelope sbom quarantine outcome ∧
      (outcome.decision = .PROMOTE ↔ policy.keystore = .ok .ONLINE) := by
  unfold decideAdmitted at h
  split at h
  · exact absurd (congrArg Outcome.decision (Except.ok.inj h)).symm hkept
  · exact absurd (congrArg Outcome.decision (Except.ok.inj h)).symm hkept
  next raw _ =>
    split at h
    · cases h
    · exact absurd (congrArg Outcome.decision (Except.ok.inj h)).symm hkept
    next provenance hverify =>
      split at h
      · cases h
      · exact absurd (congrArg Outcome.decision (Except.ok.inj h)).symm hkept
      next archive skipped hgates =>
        unfold runGates at hgates
        split at hgates
        · cases hgates
        next listed hlisted =>
          have hgates := Except.ok.inj hgates
          simp only [bind_eq_ok, pure_eq_ok, Prod.mk.injEq] at hgates
          obtain ⟨report, hreport, names, hnames, rfl, rfl⟩ := hgates
          have hevidence (decided : Outcome) (hadmitted : decided.admitted = some admitted)
              (hprovenance : decided.provenance = some provenance)
              (hskipped : decided.skippedGates = names) :
              Sound ports policy source (some raw) sbom quarantine decided :=
            ⟨admitted, artifact, raw, provenance, listed, hread, hadmitted, hstored, hsha, hlength,
              rfl, hprovenance, attested_of_verify hroute hverify, hlisted,
              inspectArchive_eq_ok hreport, hskipped ▸ runContentGates_eq_ok hnames⟩
          split at h
          · cases h
          next hoffline =>
            obtain rfl := Except.ok.inj h
            refine ⟨hevidence _ rfl rfl rfl, iff_of_false (by simp) ?_⟩
            rw [hoffline]
            simp
          next honline =>
            obtain rfl := Except.ok.inj h
            exact ⟨hevidence _ rfl rfl rfl, iff_of_true rfl honline⟩

/-- An attested artifact that passes the gates is promoted under an online key. -/
theorem decideAdmitted_eq (admitted : Admitted) {artifact raw : Bytes} {provenance : Provenance}
    {archive : Option ArchiveReport} {skipped : List String} (hsent : raw ≠ [])
    (hverify : verify ports raw admitted.sha256 policy.provenance = .ok provenance)
    (hgates : runGates ports policy artifact sbom = .ok (.ok (archive, skipped)))
    (honline : policy.keystore = .ok .ONLINE) :
    decideAdmitted ports policy admitted artifact (some raw) sbom = .ok
      { decision := .PROMOTE
        reason := .passed skipped provenance.builderId provenance.sourceRef
        admitted, provenance, archive, skippedGates := skipped } := by
  rw [decideAdmitted]
  · simp only [hverify, hgates, honline]
  · exact hsent

/-- Whatever is sent in, and however the gates are configured: what is not rejected is sound,
and it is promoted exactly where the application's key is online. -/
theorem ingest_sound (hroute : policy.provenance.trustedIdentities = [])
    (h : ingest ports source policy quarantine envelope sbom = (.ok outcome, quarantine')) :
    (outcome.decision = .PROMOTE ∨ outcome.decision = .HOLD_FOR_CEREMONY →
      Sound ports policy source envelope sbom quarantine' outcome ∧
        (outcome.decision = .PROMOTE ↔ policy.keystore = .ok .ONLINE)) ∧
      (policy.critical = true → outcome.decision ≠ .PROMOTE) := by
  have hkept (hkept : outcome.decision ≠ .REJECT) :
      Sound ports policy source envelope sbom quarantine' outcome ∧
        (outcome.decision = .PROMOTE ↔ policy.keystore = .ok .ONLINE) := by
    unfold ingest at h
    split at h
    · cases (Prod.mk.inj h).1
    · exact absurd (congrArg Outcome.decision (Except.ok.inj (Prod.mk.inj h).1)).symm hkept
    next admitted stored hadmit =>
      obtain ⟨hdecided, rfl⟩ := Prod.mk.inj h
      obtain ⟨artifact, hread, hstored, hsha, hlength⟩ := Quarantine.read_of_admit hadmit
      rw [hstored, Option.getD_some] at hdecided
      rw [← Quarantine.maxBytes_of_admit hadmit] at hread
      exact decideAdmitted_sound hroute hread hstored hsha hlength hdecided hkept
  refine ⟨fun hdecision => hkept ?_, fun hcritical hpromote => ?_⟩
  · obtain hdecision | hdecision := hdecision <;> rw [hdecision] <;> nofun
  · have honline := (hkept (by rw [hpromote]; nofun)).2.mp hpromote
    rw [critical_of_online honline] at hcritical
    cases hcritical

end Decision

/-! ## A signed build -/

def encodedPayload : String :=
  "eyJfdHlwZSI6Imh0dHBzOi8vaW4tdG90by5pby9TdGF0ZW1lbnQvdjEiLCJzdWJqZWN0IjpbeyJkaWdlc3QiOnsi" ++
  "c2hhMjU2IjoiZTNiMGM0NDI5OGZjMWMxNDlhZmJmNGM4OTk2ZmI5MjQyN2FlNDFlNDY0OWI5MzRjYTQ5NTk5MWI3" ++
  "ODUyYjg1NSJ9fV0sInByZWRpY2F0ZVR5cGUiOiJodHRwczovL3Nsc2EuZGV2L3Byb3ZlbmFuY2UvdjEiLCJwcmVk" ++
  "aWNhdGUiOnsiYnVpbGREZWZpbml0aW9uIjp7InJlc29sdmVkRGVwZW5kZW5jaWVzIjpbeyJ1cmkiOiJnaXQraHR0" ++
  "cHM6Ly9naXRodWIuY29tL2V4YW1wbGUvZWRpdG9yQHJlZnMvdGFncy92MS4wIn1dfSwicnVuRGV0YWlscyI6eyJi" ++
  "dWlsZGVyIjp7ImlkIjoiaHR0cHM6Ly9naXRodWIuY29tL2V4YW1wbGUvZWRpdG9yLy5naXRodWIvd29ya2Zsb3dz" ++
  "L3JlbGVhc2UueW1sQHJlZnMvdGFncy92MS4wIn19fX0="

/-- An envelope around `editorPayload` with these key ids, each over the signature `signature`. -/
def keyedEnvelope (keyids : List String) : String :=
  "\x7b\"payloadType\":\"application/vnd.in-toto+json\",\"payload\":\"" ++ encodedPayload ++
  "\",\"signatures\":[" ++ ",".intercalate (keyids.map fun keyid =>
    "\x7b\"keyid\":\"" ++ keyid ++ "\",\"sig\":\"c2lnbmF0dXJl\"\x7d") ++ "]\x7d"

/-- What `json.loads` makes of it. -/
def keyedJson (keyids : List String) : Json := .obj [
  ("payloadType", .str "application/vnd.in-toto+json"), ("payload", .str encodedPayload),
  ("signatures", .arr (keyids.map fun keyid =>
    .obj [("keyid", .str keyid), ("sig", .str "c2lnbmF0dXJl")]))]

/-- Python's libraries where every signature is valid; the two documents differ in length. -/
def keyedLibraries (keyids : List String) : Libraries where
  loads raw :=
    if raw.length = editorPayload.utf8ByteSize then .ok editorStatement else .ok (keyedJson keyids)
  b64decode text :=
    if text = encodedPayload then some editorPayload.toUTF8.toList
    else some "signature".toUTF8.toList
  loadPemPublicKey _ := .ok (.Ed25519 [])
  verifies _ _ _ := true
  sha256 _ := emptySha256

/-- The builder that the editor's statement names. -/
def editorBuilder : TrustedBuilder :=
  ⟨"https://github.com/example/editor/.github/workflows/release.yml@refs/tags/v1.0", "key-1", []⟩

def keyedPolicy : AppIngestPolicy where
  appId := "editor"
  critical := false
  provenance := ⟨[editorBuilder], "https://github.com/example/editor", "refs/tags/", [], by decide⟩
  contentGates := { skip := ["malware", "publisher", "sbom"] }

def keyedPorts : IngestPorts where
  lib := keyedLibraries ["key-1"]
  sigstore := ⟨fun _ => .error "no bundle", fun _ => false⟩
  entries _ := .ok none

/-! ## A build that says what it is of -/

/-- `editorPayload`, for `builtArtifact`. -/
def builtPayload : Bytes := String.toUTF8 (
  "\x7b\"_type\":\"https://in-toto.io/Statement/v1\"," ++
  "\"subject\":[\x7b\"digest\":\x7b\"sha256\":\"" ++ builtSha256 ++ "\"\x7d\x7d]," ++
  "\"predicateType\":\"https://slsa.dev/provenance/v1\"," ++
  "\"predicate\":\x7b\"buildDefinition\":\x7b\"resolvedDependencies\":[" ++
  "\x7b\"uri\":\"git+https://github.com/example/editor@refs/tags/v1.0\"\x7d]\x7d," ++
  "\"runDetails\":\x7b\"builder\":\x7b\"id\":\"https://github.com/example/editor/" ++
  ".github/workflows/release.yml@refs/tags/v1.0\"\x7d\x7d\x7d\x7d") |>.toList

def builtStatement : Json := .obj [
  ("_type", .str "https://in-toto.io/Statement/v1"),
  ("subject", .arr [.obj [("digest", .obj [("sha256", .str builtSha256)])]]),
  ("predicateType", .str "https://slsa.dev/provenance/v1"),
  ("predicate", .obj [
    ("buildDefinition", .obj [("resolvedDependencies",
      .arr [.obj [("uri", .str "git+https://github.com/example/editor@refs/tags/v1.0")]])]),
    ("runDetails", .obj [("builder", .obj [("id", .str
      "https://github.com/example/editor/.github/workflows/release.yml@refs/tags/v1.0")])])])]

def builtEncoded : String :=
  "eyJfdHlwZSI6Imh0dHBzOi8vaW4tdG90by5pby9TdGF0ZW1lbnQvdjEiLCJzdWJqZWN0IjpbeyJkaWdlc3QiOnsic2" ++
  "hhMjU2IjoiODViYWZmNTQxYTkzZDFjNTAyNDAyMGM0MGM3OTg5MGEzMTIzOTkzOTk3NzYxYTRmOGVjNzAxMGMwYzM2" ++
  "M2QxNCJ9fV0sInByZWRpY2F0ZVR5cGUiOiJodHRwczovL3Nsc2EuZGV2L3Byb3ZlbmFuY2UvdjEiLCJwcmVkaWNhdG" ++
  "UiOnsiYnVpbGREZWZpbml0aW9uIjp7InJlc29sdmVkRGVwZW5kZW5jaWVzIjpbeyJ1cmkiOiJnaXQraHR0cHM6Ly9n" ++
  "aXRodWIuY29tL2V4YW1wbGUvZWRpdG9yQHJlZnMvdGFncy92MS4wIn1dfSwicnVuRGV0YWlscyI6eyJidWlsZGVyIj" ++
  "p7ImlkIjoiaHR0cHM6Ly9naXRodWIuY29tL2V4YW1wbGUvZWRpdG9yLy5naXRodWIvd29ya2Zsb3dzL3JlbGVhc2Uu" ++
  "eW1sQHJlZnMvdGFncy92MS4wIn19fX0="

/-- An envelope around `builtPayload` with a signature of a key that nobody trusts, one that is
none, and the builder's. -/
def builtEnvelope : Bytes := String.toUTF8 (
  "\x7b\"payloadType\":\"application/vnd.in-toto+json\",\"payload\":\"" ++ builtEncoded ++
  "\",\"signatures\":[\x7b\"keyid\":\"key-0\",\"sig\":\"c2lnbmF0dXJl\"\x7d," ++
  "\x7b\"keyid\":\"key-1\",\"sig\":\"Zm9yZ2Vk\"\x7d," ++
  "\x7b\"keyid\":\"key-1\",\"sig\":\"c2lnbmF0dXJl\"\x7d]\x7d") |>.toList

def signatureEntry (signature : String × String) : Json :=
  .obj [("keyid", .str signature.1), ("sig", .str signature.2)]

def builtSignatures : List Json :=
  [("key-0", "c2lnbmF0dXJl"), ("key-1", "Zm9yZ2Vk"), ("key-1", "c2lnbmF0dXJl")].map signatureEntry

def builtJson : Json := .obj [
  ("payloadType", .str "application/vnd.in-toto+json"), ("payload", .str builtEncoded),
  ("signatures", .arr builtSignatures)]

/-- Python's libraries on these documents: the builder's key has signed the payload, and nothing
else. -/
def builtLibraries : Libraries where
  loads raw :=
    if raw = builtPayload then .ok builtStatement
    else if raw = builtEnvelope then .ok builtJson
    else .error (.JSONDecodeError "Expecting value")
  b64decode text :=
    if text = builtEncoded then some builtPayload
    else if text = "c2lnbmF0dXJl" then some "signature".toUTF8.toList
    else if text = "Zm9yZ2Vk" then some "forged".toUTF8.toList
    else none
  loadPemPublicKey pem := if pem = [1] then .ok (.Ed25519 [1]) else .error "ValueError"
  verifies key signature message :=
    key = .Ed25519 [1] ∧ signature = "signature".toUTF8.toList ∧
      message = pae DSSE_PAYLOAD_TYPE builtPayload
  sha256 bytes := if bytes = builtArtifact then builtSha256 else emptySha256

/-- A scanner, a publisher check and an SBOM are asked for, and nothing is skipped. -/
def builtPolicy : AppIngestPolicy where
  appId := "editor"
  critical := false
  provenance := ⟨[⟨editorBuilder.builderId, "key-1", [1]⟩], "https://github.com/example/editor",
    "refs/tags/", [], by decide⟩
  contentGates :=
    { malware := some fun artifact => artifact.all (· < 128)
      publisher := some fun artifact appId => appId.toUTF8.toList.isPrefixOf artifact }

/-- The artifact is an archive with two files. -/
def builtPorts : IngestPorts where
  lib := builtLibraries
  sigstore := ⟨fun _ => .error "no bundle", fun _ => false⟩
  entries artifact :=
    if artifact = builtArtifact then .ok (some [("editor/bin", 30), ("editor/doc.txt", 12)])
    else .ok none

def builtSbom : Bytes := "\x7b\x7d".toUTF8.toList

def builtProvenance : Provenance where
  builderId := editorBuilder.builderId
  sourceUri := "git+https://github.com/example/editor@refs/tags/v1.0"
  sourceRef := "refs/tags/v1.0"
  subjectName := ""
  subjectSha256 := builtSha256
  statement := builtStatement

theorem decodeEnvelope_built : decodeEnvelope builtLibraries builtEnvelope =
    .ok (DSSE_PAYLOAD_TYPE, builtPayload, builtSignatures) := by
  obtain ⟨hlength, hdiffers⟩ : ¬ MAX_ENVELOPE_BYTES < builtEnvelope.length ∧
      builtEnvelope.length ≠ builtPayload.length := by
    decide +kernel
  have hloads : builtLibraries.loads builtEnvelope = .ok builtJson := by
    simp only [builtLibraries, if_neg (ne_of_apply_ne List.length hdiffers), ↓reduceIte]
  have hpayload : builtLibraries.b64decode builtEncoded = some builtPayload := by
    simp only [builtLibraries, ↓reduceIte]
  have hencoded : builtJson.getStr? "payload" = some builtEncoded := rfl
  rw [decodeEnvelope, if_neg hlength, loadsOr, hloads]
  dsimp only [bind, Except.bind, ensure]
  rw [hencoded]
  dsimp only
  rw [hpayload]
  rfl

/-- The first two signatures are passed over, the third is the builder's. -/
theorem trySignatures_built : trySignatures builtLibraries builtPolicy.provenance
    (pae DSSE_PAYLOAD_TYPE builtPayload) builtPayload builtSignatures =
      .ok (builtStatement, editorBuilder.builderId) := by
  have hloads : builtLibraries.loads builtPayload = .ok builtStatement := by
    simp only [builtLibraries, ↓reduceIte]
  have hstatement : statementOf builtLibraries builtPayload = .ok builtStatement := by
    rw [statementOf, loadsOr, hloads]
    rfl
  have hsigns : Signs builtLibraries (pae DSSE_PAYLOAD_TYPE builtPayload)
      (signatureEntry ("key-1", "c2lnbmF0dXJl")) ⟨editorBuilder.builderId, "key-1", [1]⟩ := by
    refine ⟨rfl, _, "signature".toUTF8.toList, .Ed25519 [1], rfl, rfl, rfl, ?_⟩
    exact congrArg Except.ok (decide_eq_true ⟨rfl, rfl, rfl⟩)
  refine trySignatures_eq_ok_iff.mpr ⟨[signatureEntry ("key-0", "c2lnbmF0dXJl"),
    signatureEntry ("key-1", "Zm9yZ2Vk")], signatureEntry ("key-1", "c2lnbmF0dXJl"), [],
    ⟨editorBuilder.builderId, "key-1", [1]⟩, rfl, ?_, verdict_eq_some.mpr ⟨rfl, hsigns⟩,
    hstatement, rfl⟩
  intro entry hentry
  obtain rfl | rfl : entry = signatureEntry ("key-0", "c2lnbmF0dXJl") ∨
      entry = signatureEntry ("key-1", "Zm9yZ2Vk") := by
    simpa using hentry
  · rfl
  · have hcandidate : candidate builtLibraries builtPolicy.provenance
        (signatureEntry ("key-1", "Zm9yZ2Vk")) =
          some (⟨editorBuilder.builderId, "key-1", [1]⟩, "forged".toUTF8.toList) := rfl
    have hforged : builtLibraries.verifies (.Ed25519 [1]) "forged".toUTF8.toList
        (pae DSSE_PAYLOAD_TYPE builtPayload) = false :=
      decide_eq_false fun hverifies => absurd hverifies.2.1 (by decide +kernel)
    have hkey : builtLibraries.loadPemPublicKey [1] = .ok (.Ed25519 [1]) := rfl
    rw [verdict, hcandidate]
    dsimp only
    rw [hkey]
    dsimp only [verifySignature]
    rw [hforged]
    rfl

theorem verify_built :
    verify builtPorts builtEnvelope builtSha256 builtPolicy.provenance = .ok builtProvenance := by
  have hchecked : checkStatement builtStatement editorBuilder.builderId builtSha256
      builtPolicy.provenance = .ok builtProvenance := by
    decide +kernel
  have henvelope : verifyEnvelope builtLibraries builtEnvelope builtPolicy.provenance =
      .ok (builtStatement, editorBuilder.builderId) := by
    rw [verifyEnvelope, decodeEnvelope_built, Fallible.bind_ok]
    exact trySignatures_built
  rw [verify, if_neg (fun hroute => hroute rfl), verifyProvenance,
    show builtPorts.lib = builtLibraries from rfl, henvelope]
  exact hchecked

def builtOutcome : Outcome where
  decision := .PROMOTE
  reason := .passed [] editorBuilder.builderId "refs/tags/v1.0"
  admitted := some ⟨builtSha256, 10⟩
  provenance := some builtProvenance
  archive := some ⟨2, 42, 10⟩
  skippedGates := []

theorem decideAdmitted_built : decideAdmitted builtPorts builtPolicy ⟨builtSha256, 10⟩ builtArtifact
    (some builtEnvelope) (some builtSbom) = .ok builtOutcome := by
  have hsent : builtEnvelope ≠ [] := by decide +kernel
  have hgates : runGates builtPorts builtPolicy builtArtifact (some builtSbom) =
      .ok (.ok (some ⟨2, 42, 10⟩, [])) := by
    decide +kernel
  have honline : builtPolicy.keystore = .ok .ONLINE := by decide +kernel
  have hdecided := decideAdmitted_eq ⟨builtSha256, 10⟩ hsent verify_built hgates honline
  exact hdecided.trans rfl

/-- All of the stream is stored, and the editor is promoted. -/
theorem ingest_built : ingest builtPorts builtStream builtPolicy ⟨1000, []⟩ (some builtEnvelope)
    (some builtSbom) = (.ok builtOutcome, ⟨1000, [(builtSha256, builtArtifact)]⟩) := by
  have hadmit : Quarantine.admitStream builtLibraries ⟨1000, []⟩ builtStream =
      .ok (⟨builtSha256, 10⟩, ⟨1000, [(builtSha256, builtArtifact)]⟩) := by
    decide +kernel
  have hread : Quarantine.read ⟨1000, [(builtSha256, builtArtifact)]⟩ builtSha256 =
      some builtArtifact := by
    decide +kernel
  rw [ingest, show builtPorts.lib = builtLibraries from rfl, hadmit]
  dsimp only
  rw [hread, Option.getD_some, decideAdmitted_built]

theorem ingest_sound_keyed :
    ∃ outcome quarantine, ingest builtPorts builtStream builtPolicy ⟨1000, []⟩
        (some builtEnvelope) (some builtSbom) = (.ok outcome, quarantine) ∧
      outcome.decision = .PROMOTE ∧ outcome.skippedGates = [] ∧
      quarantine.stored = [(builtSha256, builtArtifact)] ∧
      Sound builtPorts builtPolicy builtStream (some builtEnvelope) (some builtSbom) quarantine
        outcome :=
  ⟨_, _, ingest_built, rfl, rfl, rfl, ((ingest_sound rfl ingest_built).1 (.inl rfl)).1⟩

end DistPlatform.Ingest
