import DistPlatform.Tuf.Database

/-!
# The client's verifier (`dist-core-rs`: `lib.rs`, `verifier.rs`)

The rest of the client asks for a target by a path that is safe on disk and gets back what
the signed metadata says about it, or one error for everything the metadata does not cover.

## Main definitions

* `TargetPath` — five safe segments, checked by `TargetPath.parse`.
* `releaseInfo` — the signed release data out of a target's custom map.
* `TufVerifier.target` — the description of a target, from trusted metadata.
-/

namespace DistPlatform.Client

open DistPlatform.Tuf

/-! ## Target paths -/

inductive PathError
  | SegmentCount (n : Nat)
  | UnsafeSegment (segment : List Char)
  deriving DecidableEq, Repr

def SEGMENTS := 5

def unsafeSegment (segment : List Char) : Bool :=
  segment.isEmpty || segment == ['.'] || segment == ['.', '.'] ||
    segment.contains '\\' || segment.contains ':' || segment.contains (Char.ofNat 0)

/-- One published artifact, by the path it has in the metadata. -/
structure TargetPath where
  asStr : String
  segmentCount : (Text.segments asStr).length = SEGMENTS
  segmentsSafe : ∀ s ∈ Text.segments asStr, unsafeSegment s = false
  deriving DecidableEq

def TargetPath.parse (raw : String) : Except PathError TargetPath :=
  if hn : (Text.segments raw).length = SEGMENTS then
    match hs : (Text.segments raw).find? unsafeSegment with
    | some segment => .error (.UnsafeSegment segment)
    | none => .ok ⟨raw, hn, by simpa using hs⟩
  else .error (.SegmentCount (Text.segments raw).length)

theorem asStr_of_parse {raw : String} {parsed : TargetPath}
    (h : TargetPath.parse raw = .ok parsed) : parsed.asStr = raw := by
  unfold TargetPath.parse at h
  split at h
  · split at h
    · cases h
    · rw [← Except.ok.inj h]
  · cases h

/-! ## Errors and results -/

inductive Role
  | Root
  | Timestamp
  | Snapshot
  | Targets
  | Delegated
  deriving DecidableEq, Repr

inductive VerifyError
  | Rejected (role : Role) (reason : String)
  | UnknownTarget
  | Malformed (what : String)
  | Length (expected actual : UInt64)
  | Digest
  | Clock
  deriving DecidableEq, Repr

/-- Signed release metadata attached to a target. -/
structure ReleaseInfo where
  version : String
  rolloutPct : UInt32
  mandatory : Bool
  notesUrl : Option String
  minOs : Option String
  minFromVersion : Option String
  deriving DecidableEq, Repr

structure TargetInfo where
  length : UInt64
  sha256 : List UInt8
  release : ReleaseInfo
  deriving DecidableEq, Repr

/-- `Value::as_u64`: serde keeps an integer of that range as one, and nothing else. -/
def asU64 : Json → Option Nat
  | .int i => if 0 ≤ i ∧ i < 2 ^ 64 then some i.toNat else none
  | _ => none

def releaseInfo (custom : List (String × Json)) : Except VerifyError ReleaseInfo :=
  match (custom.lookup "version").bind Json.str? with
  | none => .error (.Malformed "release metadata has no version")
  | some version =>
    let rolloutPct := ((custom.lookup "rollout_pct").bind asU64).getD 100
    -- `u32::try_from` and the comparison that follows it refuse with one message
    if rolloutPct < 2 ^ 32 ∧ rolloutPct ≤ 100 then
      .ok {
        version
        rolloutPct := UInt32.ofNat rolloutPct
        mandatory := ((custom.lookup "mandatory").bind Json.bool?).getD false
        notesUrl := (custom.lookup "notes_url").bind Json.str?
        minOs := (custom.lookup "min_os").bind Json.str?
        minFromVersion := (custom.lookup "min_from_version").bind Json.str? }
    else .error (.Malformed "rollout_pct out of range")

/-- The last part of `target`: a description as the client reports it. -/
def targetInfo (description : TargetDescription) : Except VerifyError TargetInfo :=
  match description.hashes.lookup .Sha256 with
  | none => .error (.Malformed "target has no sha256 hash")
  | some digest =>
    if digest.length = 32 then
      match releaseInfo description.custom with
      | .ok release => .ok ⟨description.length, digest, release⟩
      | .error e => .error e
    else .error (.Malformed "sha256 digest is not 32 bytes")

/-! ## The verifier -/

/-- Where the verifier gets the current time. -/
inductive Clock
  | System
  | Fixed (time : Time)
  deriving DecidableEq, Repr

/-- The last second `chrono` can represent. -/
def MAX_UTC : Int := 8210266876799

/-- `to_utc`, from seconds relative to the epoch. -/
def toUtc (time : Int) : Except VerifyError Time :=
  if 0 ≤ time ∧ time ≤ MAX_UTC then .ok time else .error .Clock

structure TufVerifier where
  database : Database
  clock : Clock
  deriving DecidableEq

namespace TufVerifier

/-- `systemTime` is what `SystemTime::now()` answers at this call. -/
def now (verifier : TufVerifier) (systemTime : Int) : Except VerifyError Time :=
  match verifier.clock with
  | .System => toUtc systemTime
  | .Fixed time => .ok time

/-- The description `target` finds, before it is turned into a `TargetInfo`. -/
def description (verifier : TufVerifier) (systemTime : Int) (path : TargetPath) :
    Except VerifyError TargetDescription := do
  let now ← verifier.now systemTime
  match Tuf.TargetPath.new path.asStr with
  | .error _ => throw .UnknownTarget
  | .ok tufPath =>
    match verifier.database.targetDescription now tufPath with
    | .error _ => throw .UnknownTarget
    | .ok description => return description

def target (verifier : TufVerifier) (systemTime : Int) (path : TargetPath) :
    Except VerifyError TargetInfo := do
  targetInfo (← verifier.description systemTime path)

theorem target_eq_ok {verifier : TufVerifier} {systemTime : Int} {path : TargetPath}
    {info : TargetInfo} :
    verifier.target systemTime path = .ok info ↔
      ∃ d, verifier.description systemTime path = .ok d ∧ targetInfo d = .ok info := by
  unfold target
  cases verifier.description systemTime path <;> simp [bind, Except.bind]

theorem releaseInfo_error {custom : List (String × Json)} {e : VerifyError}
    (h : releaseInfo custom = .error e) : ∃ what, e = .Malformed what := by
  unfold releaseInfo at h
  split at h
  · exact ⟨_, (Except.error.inj h).symm⟩
  · dsimp only at h
    split at h
    · cases h
    · exact ⟨_, (Except.error.inj h).symm⟩

/-- A description is only ever refused as malformed. -/
theorem targetInfo_error {d : TargetDescription} {e : VerifyError}
    (h : targetInfo d = .error e) : ∃ what, e = .Malformed what := by
  unfold targetInfo at h
  split at h
  · exact ⟨_, (Except.error.inj h).symm⟩
  · split at h
    · split at h
      · cases h
      next e' he =>
        obtain rfl := Except.error.inj h
        exact releaseInfo_error he
    · exact ⟨_, (Except.error.inj h).symm⟩

theorem targetInfo_ne_unknown (d : TargetDescription) :
    targetInfo d ≠ .error .UnknownTarget := by
  intro h
  obtain ⟨what, hw⟩ := targetInfo_error h
  cases hw

end TufVerifier

end DistPlatform.Client
