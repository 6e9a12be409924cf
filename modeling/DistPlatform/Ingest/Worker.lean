import DistPlatform.Ingest.Sources

/-!
# The ingest worker's jobs (`dist_ingest.worker`)

What a validate and a poll job compute from the forge's answers, the record a poll leaves,
and the payload a promoted poll hands to the signer.

## Main definitions

* `doValidate`, `doPoll` — the two kinds of work.
* `PollRecord`, `JobResult` — what is written back.
* `handOffPayload` — the publish job's payload, for a promoted poll only.
-/

namespace DistPlatform.Ingest

open Registry (Source JobKind)

/-! ## Validation -/

/-- What a validate job reports. -/
structure Validated where
  identity : Identity
  latestTag : String
  latestVersion : String
  asset : String
  assetBytes : Int
  deriving DecidableEq, Repr

/-- The release asset a source names, or the refusal both jobs share; `suffix` is the rest of
the message. -/
def namedAsset (source : Source) (release : ForgeRelease) (suffix : String) :
    Except JobError ForgeAsset :=
  match release.asset source.assetName with
  | some asset => .ok asset
  | none => .error (.ForgeError ⟨"release " ++ release.tag ++ " has no asset named " ++
      Text.quoted (release.resolveAssetName source.assetName) ++ suffix⟩)

/-- What the refusal of a validation adds: the pattern, and the assets there are. -/
def availableAssets (source : Source) (release : ForgeRelease) : String :=
  (if release.resolveAssetName source.assetName = source.assetName then ""
    else " (from " ++ Text.quoted source.assetName ++ ")") ++
  " (it has: " ++ (if release.assets.isEmpty then "none"
    else ", ".intercalate (release.assets.map (·.name))) ++ ")"

def doValidate (source : Source) (answers : ForgeAnswers) : Except JobError Validated := do
  let identity ← projectIdentity source answers
  match ← latestRelease source answers with
  | none => throw (.ForgeError
      ⟨"the project has no published release; there is nothing to ingest yet"⟩)
  | some release =>
    let asset ← namedAsset source release (availableAssets source release)
    return ⟨identity, release.tag, release.version, asset.name, asset.size⟩

/-! ## Polling -/

def CHUNK := 1024 * 1024

/-- A file, read chunk by chunk. -/
def fileReader (bytes : Bytes) : Reader :=
  (List.range (bytes.length / CHUNK + 1)).map fun i => .ok ((bytes.drop (i * CHUNK)).take CHUNK)

/-- A missing attestation is a rejection later on, not an error. -/
def attestationOrNone (answers : ForgeAnswers) (digest : String) :
    Except JobError (Option Bytes) :=
  match answers.attestation digest with
  | .error (.ForgeError _) => .ok none
  | answer => answer

/-- A poll that got as far as a decision. -/
structure Polled where
  release : ForgeRelease
  asset : ForgeAsset
  written : Nat
  outcome : Outcome
  deriving DecidableEq

/-- The release a poll looks at, its asset and the bytes downloaded; nothing where the forge
has no release. -/
def fetchRelease (source : Source) (answers : ForgeAnswers) :
    Except JobError (Option (ForgeRelease × ForgeAsset × Bytes)) := do
  match ← latestRelease source answers with
  | none => return none
  | some release =>
    let asset ← namedAsset source release ""
    let bytes ← answers.download asset
    return some (release, asset, bytes)

/-- The end of `do_poll`: look the attestation up and let `ingest` decide. -/
def decide (ports : IngestPorts) (policy : AppIngestPolicy) (answers : ForgeAnswers)
    (quarantine : Quarantine) (bytes : Bytes) : Except JobError Outcome × Quarantine :=
  match attestationOrNone answers (ports.lib.sha256 bytes) with
  | .error e => (.error e, quarantine)
  | .ok envelope =>
    match ingest ports (fileReader bytes) policy quarantine envelope none with
    | (.error exception, quarantine') => (.error (.Other exception), quarantine')
    | (.ok outcome, quarantine') => (.ok outcome, quarantine')

/-- `do_poll`, up to the record, with the quarantine it leaves behind. -/
def poll (ports : IngestPorts) (skipNamed : List String) (source : Source)
    (answers : ForgeAnswers) (quarantine : Quarantine) :
    Except JobError (Option Polled) × Quarantine :=
  match (do return (← ingestPolicy source skipNamed, ← fetchRelease source answers)) with
  | .error e => (.error e, quarantine)
  | .ok (_, none) => (.ok none, quarantine)
  | .ok (policy, some (release, asset, bytes)) =>
    match decide ports policy answers quarantine bytes with
    | (.error e, quarantine') => (.error e, quarantine')
    | (.ok outcome, quarantine') =>
      (.ok (some ⟨release, asset, bytes.length, outcome⟩), quarantine')

/-- What a finished poll reports. -/
structure PollRecord where
  tag : String
  version : String
  filename : String
  bytes : Nat
  decision : Promotion
  reason : Reason
  sha256 : Option String
  note : Option String
  deriving DecidableEq

/-- `_outcome_record`. -/
def outcomeRecord (polled : Polled) : PollRecord where
  tag := polled.release.tag
  version := polled.release.version
  filename := polled.asset.name
  bytes := polled.written
  decision := polled.outcome.decision
  reason := polled.outcome.reason
  sha256 := polled.outcome.admitted.map (·.sha256)
  note := if polled.outcome.decision = .HOLD_FOR_CEREMONY then
      some "offline key; a human must sign this release" else none

/-- What a publish job reports. -/
structure Published where
  target : String
  pointer : String
  version : String
  sha256 : String
  deriving DecidableEq, Repr

/-- The `result` column of a finished job. -/
inductive JobResult
  | validated (result : Validated)
  | noRelease
  | polled (record : PollRecord)
  | unchanged (tag : String) (consecutiveSkips : Nat)
  | published (result : Published)
  deriving DecidableEq

/-- `do_poll`. -/
def doPoll (ports : IngestPorts) (skipNamed : List String) (source : Source)
    (answers : ForgeAnswers) (quarantine : Quarantine) : Except JobError JobResult × Quarantine :=
  match poll ports skipNamed source answers quarantine with
  | (.error e, quarantine') => (.error e, quarantine')
  | (.ok none, quarantine') => (.ok .noRelease, quarantine')
  | (.ok (some polled), quarantine') => (.ok (.polled (outcomeRecord polled)), quarantine')

/-- What a publish job acts on. -/
structure PublishPayload where
  sha256 : String
  version : String
  filename : String
  tag : String
  deriving DecidableEq, Repr

/-- The payload `_hand_off_to_signer` queues. A promoted record without a digest would be a
`KeyError`; `outcomeRecord_sha256` shows there is none. -/
def handOffPayload (kind : JobKind) : JobResult → Option PublishPayload
  | .polled record =>
    if kind = .POLL ∧ record.decision = .PROMOTE then
      record.sha256.map fun sha256 => ⟨sha256, record.version, record.filename, record.tag⟩
    else none
  | _ => none

/-! ## What a hand-off carries -/

section HandOff

variable {ports : IngestPorts} {skipNamed : List String} {source : Source}
  {answers : ForgeAnswers} {quarantine : Quarantine} {polled : Polled}

theorem fetchRelease_eq_ok {release : ForgeRelease} {asset : ForgeAsset} {bytes : Bytes}
    (h : fetchRelease source answers = .ok (some (release, asset, bytes))) :
    latestRelease source answers = .ok (some release) ∧
      release.asset source.assetName = some asset ∧ answers.download asset = .ok bytes := by
  simp only [fetchRelease, Fallible.bind_eq_ok] at h
  obtain ⟨listed, hlisted, h⟩ := h
  cases listed with
  | none => cases h
  | some found =>
    simp only [Fallible.bind_eq_ok, Fallible.pure_eq_ok, Option.some.injEq, Prod.mk.injEq] at h
    obtain ⟨_, hasset, _, hbytes, rfl, rfl, rfl⟩ := h
    refine ⟨hlisted, ?_, hbytes⟩
    unfold namedAsset at hasset
    split at hasset
    next found hfound => rw [hfound, Except.ok.inj hasset]
    · cases hasset

theorem decide_eq_ok {policy : AppIngestPolicy} {bytes : Bytes} {outcome : Outcome}
    (h : (decide ports policy answers quarantine bytes).1 = .ok outcome) :
    ∃ envelope, attestationOrNone answers (ports.lib.sha256 bytes) = .ok envelope ∧
      (ingest ports (fileReader bytes) policy quarantine envelope none).1 = .ok outcome := by
  unfold decide at h
  split at h
  · cases h
  next envelope henvelope =>
    refine ⟨envelope, henvelope, ?_⟩
    split at h
    · cases h
    next found _ hingest =>
      obtain rfl := Except.ok.inj h
      rw [hingest]

/-- A poll that reached a decision listed a release, downloaded the source's asset of it, and
decided over those bytes with the attestation the forge has for their digest. -/
theorem poll_eq_ok (h : (poll ports skipNamed source answers quarantine).1 = .ok (some polled)) :
    ∃ policy bytes envelope, ingestPolicy source skipNamed = .ok policy ∧
      latestRelease source answers = .ok (some polled.release) ∧
      polled.release.asset source.assetName = some polled.asset ∧
      answers.download polled.asset = .ok bytes ∧
      attestationOrNone answers (ports.lib.sha256 bytes) = .ok envelope ∧
      (ingest ports (fileReader bytes) policy quarantine envelope none).1 = .ok polled.outcome := by
  unfold poll at h
  split at h
  · cases h
  · cases h
  next release asset bytes hprepare =>
    simp only [Fallible.bind_eq_ok, Fallible.pure_eq_ok, Prod.mk.injEq] at hprepare
    obtain ⟨policy, hpolicy, _, hfetch, rfl, rfl⟩ := hprepare
    obtain ⟨hlisted, hasset, hbytes⟩ := fetchRelease_eq_ok hfetch
    split at h
    · cases h
    next outcome _ hdecide =>
      obtain rfl := Option.some.inj (Except.ok.inj h)
      obtain ⟨envelope, henvelope, hingest⟩ := decide_eq_ok (congrArg Prod.fst hdecide)
      exact ⟨policy, bytes, envelope, hpolicy, hlisted, hasset, hbytes, henvelope, hingest⟩

/-- A promoted record always carries a digest: the `KeyError` of the hand-off cannot happen. -/
theorem outcomeRecord_sha256
    (h : (poll ports skipNamed source answers quarantine).1 = .ok (some polled))
    (hp : (outcomeRecord polled).decision = .PROMOTE) :
    ∃ sha256, (outcomeRecord polled).sha256 = some sha256 := by
  obtain ⟨policy, bytes, envelope, -, -, -, -, -, hingest⟩ := poll_eq_ok h
  obtain ⟨-, admitted, raw, provenance, hadmitted, -, -, -⟩ := ingest_promote hingest hp
  exact ⟨admitted.sha256, by simp [outcomeRecord, hadmitted]⟩

/-- Nothing is promoted for a source that was critical when its row was read. -/
theorem noncritical_of_promoted
    (h : (poll ports skipNamed source answers quarantine).1 = .ok (some polled))
    (hp : polled.outcome.decision = .PROMOTE) : source.critical = false := by
  obtain ⟨policy, bytes, envelope, hpolicy, -, -, -, -, hingest⟩ := poll_eq_ok h
  exact keystore_online hpolicy (ingest_promote hingest hp).1

/-- Only a promoted poll is handed on, and the payload is its record's. -/
theorem handOffPayload_eq_some {kind : JobKind} {result : JobResult} {payload : PublishPayload}
    (h : handOffPayload kind result = some payload) : kind = .POLL ∧ ∃ record,
      result = .polled record ∧ record.decision = .PROMOTE ∧ record.tag = payload.tag ∧
        record.version = payload.version ∧ record.filename = payload.filename ∧
        record.sha256 = some payload.sha256 := by
  unfold handOffPayload at h
  split at h
  next record =>
    split at h
    next hp =>
      obtain ⟨sha256, hsha, rfl⟩ := Option.map_eq_some_iff.mp h
      exact ⟨hp.1, record, rfl, hp.2, rfl, rfl, rfl, hsha⟩
    · cases h
  · cases h

end HandOff

end DistPlatform.Ingest
