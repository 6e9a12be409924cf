import DistPlatform.Client.Verifier
import DistPlatform.Library.Utf8

/-!
# The C boundary and the Python binding (`dist-core-ffi`, `dist_client`)

A call of the binding crosses the C ABI: text arrives NUL-terminated, a target description
leaves in a struct of fixed size, and every failure is a status the binding raises.

## Main definitions

* `DistStatus`, `statusOf` — the result of every entry point.
* `DistTargetInfo.fillFrom`, `toTargetInfo` — a description through the struct and back.
* `RoundTrips` — a description is rejected for its length, or comes back as it was.
* `bindingTarget`, `bindingInRollout`, `bindingVerifyPayload` — the calls of `dist_client`.
-/

namespace DistPlatform.Client

/-- The failures of the ABI (`DistStatus` without `Ok`, `NullArgument` and `Panic`, which no
call of the binding on a live handle returns). -/
inductive DistStatus
  | Rejected
  | UnknownTarget
  | Malformed
  | Length
  | Digest
  | Clock
  | InvalidArgument
  | Overflow
  deriving DecidableEq, Repr

/-- `From<VerifyError> for DistStatus`. -/
def statusOf : VerifyError → DistStatus
  | .Rejected .. => .Rejected
  | .UnknownTarget => .UnknownTarget
  | .Malformed _ => .Malformed
  | .Length .. => .Length
  | .Digest => .Digest
  | .Clock => .Clock

/-- Python's `DistError`: the status, and the detail `_raise` was given. -/
structure DistError where
  status : DistStatus
  detail : String
  deriving DecidableEq, Repr

def DIST_VERSION_CAPACITY := 64

/-- The C struct; `version` is NUL-padded. -/
structure DistTargetInfo where
  length : UInt64
  sha256 : List UInt8
  rolloutPct : UInt32
  mandatory : UInt8
  version : List UInt8
  versionFull : version.length = DIST_VERSION_CAPACITY
  deriving DecidableEq

/-- `fill_from`, into a zeroed struct: one byte is kept for the terminating NUL. -/
def DistTargetInfo.fillFrom (info : TargetInfo) : Except DistStatus DistTargetInfo :=
  if h : info.release.version.toUTF8.toList.length ≤ DIST_VERSION_CAPACITY - 1 then
    .ok {
      length := info.length
      sha256 := info.sha256
      rolloutPct := info.release.rolloutPct
      mandatory := if info.release.mandatory then 1 else 0
      version := info.release.version.toUTF8.toList ++
        List.replicate (DIST_VERSION_CAPACITY - info.release.version.toUTF8.toList.length) 0
      versionFull := by simp [DIST_VERSION_CAPACITY] at h ⊢; omega }
  else .error .Overflow

/-- What the binding hands to the application (`dist_client.TargetInfo`). -/
structure PyTargetInfo where
  version : String
  length : UInt64
  sha256 : List UInt8
  rolloutPct : UInt32
  mandatory : Bool
  deriving DecidableEq, Repr

/-- `_to_target_info`: the version is what stands before the first NUL. Nothing where these
bytes are not UTF-8. -/
def toTargetInfo (raw : DistTargetInfo) : Option PyTargetInfo :=
  (String.fromUTF8? ⟨(raw.version.takeWhile (· ≠ 0)).toArray⟩).map fun version =>
    ⟨version, raw.length, raw.sha256, raw.rolloutPct, raw.mandatory != 0⟩

/-- The text that arrives behind a `char *`. -/
def cString (s : String) : String := String.ofList (s.toList.takeWhile (· ≠ Char.ofNat 0))

/-- `dist_verifier_target`, from the path as the ABI receives it. -/
def distVerifierTarget (target : TargetPath → Except VerifyError TargetInfo) (path : String) :
    Except DistStatus DistTargetInfo :=
  match TargetPath.parse path with
  | .error _ => .error .InvalidArgument
  | .ok parsed => match target parsed with
    | .error e => .error (statusOf e)
    | .ok info => DistTargetInfo.fillFrom info

/-- `Verifier.target` of the binding. -/
def bindingTarget (target : TargetPath → Except VerifyError TargetInfo) (path : String) :
    Except DistError (Option PyTargetInfo) :=
  match distVerifierTarget target (cString path) with
  | .error status => .error ⟨status, path⟩
  | .ok raw => .ok (toTargetInfo raw)

/-! ## Payloads and rollout -/

section Digest

variable (sha256 : List UInt8 → List UInt8)

/-- `verify_payload`: the length first, then the digest. -/
def verifyPayload (info : TargetInfo) (payload : List UInt8) : Except VerifyError Unit :=
  if payload.length ≠ info.length.toNat then
    .error (.Length info.length (UInt64.ofNat payload.length))
  else if sha256 payload ≠ info.sha256 then .error .Digest
  else .ok ()

/-- `verify_payload` of the binding; only length and digest take part. -/
def bindingVerifyPayload (info : PyTargetInfo) (payload : List UInt8) : Except DistError Unit :=
  match verifyPayload sha256
      ⟨info.length, info.sha256, ⟨"", info.rolloutPct, info.mandatory, none, none, none⟩⟩
      payload with
  | .error e => .error ⟨statusOf e, ""⟩
  | .ok () => .ok ()

/-- The first four digest bytes, big endian. -/
def bucketOf : List UInt8 → Nat
  | b0 :: b1 :: b2 :: b3 :: _ =>
    (b0.toNat * 2 ^ 24 + b1.toNat * 2 ^ 16 + b2.toNat * 2 ^ 8 + b3.toNat) % 100
  | _ => 0

/-- `rollout::in_rollout`; nothing where the percentage is out of range. -/
def inRollout (installId appId : String) (rolloutPct : UInt32) : Option Bool :=
  if 100 < rolloutPct.toNat then none
  else if rolloutPct.toNat = 0 then some false
  else if rolloutPct.toNat = 100 then some true
  else
    some (bucketOf (sha256
      (installId.toUTF8.toList ++ ":".toUTF8.toList ++ appId.toUTF8.toList)) < rolloutPct.toNat)

def bindingInRollout (installId appId : String) (rolloutPct : UInt32) : Except DistError Bool :=
  match inRollout sha256 (cString installId) (cString appId) rolloutPct with
  | some inside => .ok inside
  | none => .error ⟨.InvalidArgument, ""⟩

end Digest

/-! ## Through the struct and back -/

/-- A description as the application sees it: the version ends at the first NUL. -/
def TargetInfo.seen (info : TargetInfo) : PyTargetInfo :=
  ⟨cString info.release.version, info.length, info.sha256, info.release.rolloutPct,
    info.release.mandatory⟩

theorem toTargetInfo_fillFrom {info : TargetInfo} {raw : DistTargetInfo}
    (h : DistTargetInfo.fillFrom info = .ok raw) : toTargetInfo raw = some info.seen := by
  unfold DistTargetInfo.fillFrom at h
  split at h
  · obtain rfl := Except.ok.inj h
    have hversion := Utf8.takeWhile_bytes info.release.version
      (DIST_VERSION_CAPACITY - (Utf8.bytes info.release.version).length)
    have hmandatory : ((if info.release.mandatory then 1 else 0 : UInt8) != 0) =
        info.release.mandatory := by
      cases info.release.mandatory <;> rfl
    unfold Utf8.bytes at hversion
    simp only [toTargetInfo, hversion, hmandatory]
    change (String.fromUTF8? ⟨(Utf8.bytes (cString info.release.version)).toArray⟩).map _ = _
    rw [Utf8.fromUTF8?_bytes]
    rfl
  · cases h

/-- `fill_from` rejects the versions for which the struct has no room, and no others. -/
theorem fillFrom_eq_ok_iff {info : TargetInfo} : (∃ raw, DistTargetInfo.fillFrom info = .ok raw) ↔
    (Utf8.bytes info.release.version).length ≤ DIST_VERSION_CAPACITY - 1 := by
  constructor
  · rintro ⟨raw, hraw⟩
    unfold DistTargetInfo.fillFrom at hraw
    split at hraw
    next hlength => exact hlength
    · cases hraw
  · intro hlength
    exact ⟨_, dif_pos hlength⟩

/-- A description as it was signed, in the binding's own type. -/
def TargetInfo.described (info : TargetInfo) : PyTargetInfo :=
  ⟨info.release.version, info.length, info.sha256, info.release.rolloutPct,
    info.release.mandatory⟩

theorem cString_eq_self_iff {s : String} : cString s = s ↔ Utf8.NUL ∉ s.toList :=
  Utf8.beforeNul_eq_self_iff

/-- What the binding hands out is the whole description exactly where its version has no
NUL. -/
theorem seen_eq_iff {info : TargetInfo} :
    info.seen = info.described ↔ Utf8.NUL ∉ info.release.version.toList := by
  rw [← cString_eq_self_iff, TargetInfo.seen, TargetInfo.described, PyTargetInfo.mk.injEq]
  simp

/-- A version without room is rejected with `Overflow`; any other description comes out of the
struct as it went in. -/
def RoundTrips (info : TargetInfo) : Prop :=
  if DIST_VERSION_CAPACITY - 1 < (Utf8.bytes info.release.version).length then
    DistTargetInfo.fillFrom info = .error .Overflow
  else
    ∃ raw, DistTargetInfo.fillFrom info = .ok raw ∧ toTargetInfo raw = some info.described

/-- What fits is recovered exactly where no NUL stands in the version: the bytes behind one are
taken for the padding. -/
theorem roundTrips_iff {info : TargetInfo} : RoundTrips info ↔
    ((Utf8.bytes info.release.version).length ≤ DIST_VERSION_CAPACITY - 1 →
      Utf8.NUL ∉ info.release.version.toList) := by
  unfold RoundTrips
  split
  next hlong =>
    refine iff_of_true (dif_neg (not_le.mpr hlong)) fun hshort => ?_
    exact absurd hshort (not_le.mpr hlong)
  next hshort =>
    have hfits := not_lt.mp hshort
    obtain ⟨raw, hraw⟩ := fillFrom_eq_ok_iff.mpr hfits
    rw [← seen_eq_iff]
    constructor
    · rintro ⟨raw', hraw', hrecovered⟩ -
      rw [toTargetInfo_fillFrom hraw'] at hrecovered
      exact Option.some.inj hrecovered
    · intro hseen
      exact ⟨raw, hraw, by rw [toTargetInfo_fillFrom hraw, hseen hfits]⟩

/-- A release whose version holds a NUL. -/
def nulRelease : TargetInfo :=
  ⟨5, List.replicate 32 7,
    ⟨"1.0" ++ String.singleton Utf8.NUL ++ "beta", 100, false, none, none, none⟩⟩

/-- The application is shown version 1.0 in place of the one that was signed. -/
theorem fillFrom_cuts_version : ¬ ∀ info : TargetInfo, RoundTrips info := by
  intro h
  have hlength :
      (Utf8.bytes nulRelease.release.version).length ≤ DIST_VERSION_CAPACITY - 1 := by
    rw [Utf8.bytes_eq]
    decide
  have hround := h nulRelease
  rw [RoundTrips, if_neg (not_lt.mpr hlength)] at hround
  obtain ⟨raw, hraw, hrecovered⟩ := hround
  rw [toTargetInfo_fillFrom hraw] at hrecovered
  have hversion := congrArg PyTargetInfo.version (Option.some.inj hrecovered)
  exact absurd hversion (by decide)

/-- What a lookup through the binding answers. -/
theorem bindingTarget_eq_some {target : TargetPath → Except VerifyError TargetInfo}
    {path : String} {seen : PyTargetInfo} :
    bindingTarget target path = .ok (some seen) ↔
      ∃ parsed info, TargetPath.parse (cString path) = .ok parsed ∧ target parsed = .ok info ∧
        (Utf8.bytes info.release.version).length ≤ DIST_VERSION_CAPACITY - 1 ∧
        seen = info.seen := by
  unfold bindingTarget distVerifierTarget
  constructor
  · intro h
    split at h
    · cases h
    next raw hraw =>
      split at hraw
      · cases hraw
      next parsed hparsed =>
        split at hraw
        · cases hraw
        next info hinfo =>
          have hseen := toTargetInfo_fillFrom hraw
          rw [Except.ok.injEq, hseen, Option.some.injEq] at h
          exact ⟨parsed, info, hparsed, hinfo, fillFrom_eq_ok_iff.mp ⟨raw, hraw⟩, h.symm⟩
  · rintro ⟨parsed, info, hparsed, hinfo, hlength, rfl⟩
    obtain ⟨raw, hraw⟩ := fillFrom_eq_ok_iff.mpr hlength
    rw [hparsed]
    simp only [hinfo, hraw, toTargetInfo_fillFrom hraw]

/-- The answer to a path depends on the verifier only through its `target`. -/
theorem bindingTarget_congr {target target' : TargetPath → Except VerifyError TargetInfo}
    {path : String} (h : ∀ parsed, TargetPath.parse (cString path) = .ok parsed →
      target parsed = target' parsed) :
    bindingTarget target path = bindingTarget target' path := by
  unfold bindingTarget distVerifierTarget
  cases hp : TargetPath.parse (cString path) with
  | error e => rfl
  | ok parsed => simp only [h parsed hp]

end DistPlatform.Client
