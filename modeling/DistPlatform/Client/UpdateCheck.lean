import DistPlatform.Client.Binding

/-!
# The update check (`dist_client.update`)

`UpdateCheck.run` feeds the verifier one role after the other, resolves the channel pointer,
then the release the pointer names, and decides on rollout.

## Main definitions

* `Channel` — what the application knows about itself.
* `resolve` — the part of `run` after the metadata has been accepted.
* `run` — the whole check, from the embedded root.
-/

namespace DistPlatform.Client

open DistPlatform.Tuf (Database MetadataPath Time)

abbrev Bytes := List UInt8

def POINTER_VERSION := "_current"
def POINTER_FILE := "release.json"
def MAX_POINTER_BYTES := 64 * 1024

structure Channel where
  appId : String
  channel : String
  platform : String
  arch : String
  deriving DecidableEq, Repr

namespace Channel

def pathPrefix (c : Channel) : String :=
  c.appId ++ "/" ++ c.channel ++ "/" ++ c.platform ++ "-" ++ c.arch ++ "/"

def pointerPath (c : Channel) : String := c.pathPrefix ++ POINTER_VERSION ++ "/" ++ POINTER_FILE

def role (c : Channel) : String := "app-" ++ c.appId

end Channel

structure Available where
  version : String
  targetPath : String
  info : PyTargetInfo
  deriving DecidableEq, Repr

/-- What `run` raises. -/
inductive UpdateFailure
  | UpdateError (message : String)
  | RedirectRefusedError (message : String)
  | DistError (error : DistError)
  /-- Whatever the application's `fetch` raised. -/
  | FetchError (message : String)
  /-- The struct's version bytes are not UTF-8. -/
  | UnicodeDecodeError
  deriving DecidableEq, Repr

/-- `bytes.hex()`. -/
def hex (digest : Bytes) : String :=
  String.ofList (digest.flatMap fun b => [(b.toNat / 16).digitChar, (b.toNat % 16).digitChar])

/-- `stored_target_path`: the digest goes in front of the last segment. -/
def storedTargetPath (targetPath sha256Hex : String) : String :=
  let dirname := targetPath.toList.reverse.dropWhile (· ≠ '/')
  let basename := targetPath.toList.reverse.takeWhile (· ≠ '/')
  String.ofList (dirname.reverse ++ sha256Hex.toList ++ '.' :: basename.reverse)

/-- What the check uses from outside: the transport, the JSON decoder (`json.loads` over the
UTF-8 decoding) and the digest. -/
structure Ports where
  fetch : String → Except String Bytes
  loads : Bytes → Except String Json
  sha256 : Bytes → Bytes

/-- The acceptance of one metadata file by the trusted database, as the four `update_*`
calls answer it. -/
structure Updates where
  root : Bytes → Except VerifyError Database
  timestamp : Time → Database → Bytes → Except VerifyError Database
  snapshot : Time → Database → Bytes → Except VerifyError Database
  targets : Time → Database → Bytes → Except VerifyError Database
  delegatedTargets : Time → Database → MetadataPath → Bytes → Except VerifyError Database

section Run

variable (ports : Ports) (updates : Updates) (installId : String) (channel : Channel)

def fetch (path : String) : Except UpdateFailure Bytes :=
  (ports.fetch path).mapError .FetchError

/-- `_parse_pointer`. -/
def parsePointer (raw : Bytes) : Except UpdateFailure (String × String) :=
  match ports.loads raw with
  | .error e => .error (.UpdateError ("channel pointer is not JSON: " ++ e))
  | .ok body =>
    if !body.isObj then .error (.UpdateError "channel pointer is not an object")
    else match body.getStr? "target_path", body.getStr? "version" with
      | some targetPath, some version => .ok (targetPath, version)
      | _, _ => .error
        (.UpdateError "channel pointer must carry target_path and version strings")

/-- `_fetch_verified`. -/
def fetchVerified (info : PyTargetInfo) (path : String) : Except UpdateFailure Bytes := do
  let body ← fetch ports ("targets/" ++ storedTargetPath path (hex info.sha256))
  (bindingVerifyPayload ports.sha256 info body).mapError .DistError
  return body

/-- `verifier.target(path)`, with the `UnknownTargetError` both callers catch apart. -/
def lookupTarget (target : TargetPath → Except VerifyError TargetInfo) (path : String) :
    Except UpdateFailure (Option PyTargetInfo) :=
  match bindingTarget target path with
  | .ok (some info) => .ok (some info)
  | .ok none => .error .UnicodeDecodeError
  | .error ⟨.UnknownTarget, _⟩ => .ok none
  | .error e => .error (.DistError e)

/-- The release a pointer names, after the pointer's own checks. -/
def resolveRelease (target : TargetPath → Except VerifyError TargetInfo)
    (targetPath version : String) : Except UpdateFailure (Option Available) := do
  if !Text.startsWith targetPath channel.pathPrefix then
    throw (.RedirectRefusedError ("channel " ++ Text.quoted channel.pathPrefix ++
      " pointed at " ++ Text.quoted targetPath))
  match ← lookupTarget target targetPath with
  | none => throw (.UpdateError ("channel points at " ++ Text.quoted targetPath ++
      ", which no trusted role describes"))
  | some info =>
    if info.version ≠ version then
      throw (.UpdateError ("pointer says version " ++ Text.quoted version ++
        " but the target says " ++ Text.quoted info.version))
    let inside ← (bindingInRollout ports.sha256 installId channel.appId info.rolloutPct).mapError
      .DistError
    return if inside then some ⟨version, targetPath, info⟩ else none

/-- `run` from the pointer lookup on. -/
def resolve (target : TargetPath → Except VerifyError TargetInfo) :
    Except UpdateFailure (Option Available) := do
  match ← lookupTarget target channel.pointerPath with
  | none => return none
  | some pointerInfo =>
    let pointer ← fetchVerified ports pointerInfo channel.pointerPath
    if MAX_POINTER_BYTES < pointer.length then
      throw (.UpdateError "channel pointer is implausibly large")
    let (targetPath, version) ← parsePointer ports pointer
    resolveRelease ports installId channel target targetPath version

/-- One update call of the binding: the clock is read, then the metadata is checked. -/
def feed (verifier : TufVerifier) (systemTime : Int)
    (update : Time → Database → Bytes → Except VerifyError Database) (raw : Bytes) :
    Except UpdateFailure TufVerifier :=
  match (do update (← verifier.now systemTime) verifier.database raw) with
  | .ok database => .ok { verifier with database }
  | .error e => .error (.DistError ⟨statusOf e, ""⟩)

/-- `update_delegated_targets`: the role name is checked before its metadata. -/
def delegatedUpdate (role : String) (now : Time) (database : Database) (raw : Bytes) :
    Except VerifyError Database :=
  match MetadataPath.new (cString role) with
  | .error _ => .error (.Rejected .Delegated "")
  | .ok path => updates.delegatedTargets now database path raw

/-- `targets_version`: the version the trusted snapshot names for a role. -/
def targetsVersion (verifier : TufVerifier) (role : String) : Option Nat :=
  match verifier.database.trustedSnapshot, MetadataPath.new (cString role) with
  | some snapshot, .ok path => (snapshot.metas.lookup path).map (·.version)
  | _, _ => none

def snapshotVersion (verifier : TufVerifier) : Option Nat :=
  verifier.database.trustedTimestamp.map (·.snapshot.version)

/-- The verifier `Verifier(root, now)` starts from. -/
def bootstrap (root : Bytes) (clock : Clock) : Except UpdateFailure TufVerifier :=
  match updates.root root with
  | .ok database => .ok ⟨database, clock⟩
  | .error e => .error (.DistError ⟨statusOf e, "the embedded root did not verify"⟩)

/-- The metadata part of `run`; nothing where the snapshot does not describe the app yet. -/
def acceptMetadata (root : Bytes) (clock : Clock) (systemTime : Int) :
    Except UpdateFailure (Option TufVerifier) := do
  let verifier ← bootstrap updates root clock
  let verifier ← feed verifier systemTime updates.timestamp (← fetch ports "timestamp.json")
  match snapshotVersion verifier with
  | none => throw (.UpdateError "timestamp named no snapshot version")
  | some snapshot =>
  let verifier ← feed verifier systemTime updates.snapshot
    (← fetch ports (toString snapshot ++ ".snapshot.json"))
  match targetsVersion verifier "targets" with
  | none => throw (.UpdateError "snapshot named no targets version")
  | some targets =>
  let verifier ← feed verifier systemTime updates.targets
    (← fetch ports (toString targets ++ ".targets.json"))
  match targetsVersion verifier channel.role with
  | none => return none
  | some delegated =>
  let raw ← fetch ports (toString delegated ++ "." ++ channel.role ++ ".json")
  return some (← feed verifier systemTime (delegatedUpdate updates channel.role) raw)

/-- `UpdateCheck.run`. -/
def run (root : Bytes) (clock : Clock) (systemTime : Int) :
    Except UpdateFailure (Option Available) := do
  match ← acceptMetadata ports updates channel root clock systemTime with
  | none => return none
  | some verifier => resolve ports installId channel (verifier.target systemTime)

end Run

/-! ## What an offer rests on -/

section Offer

variable {ports : Ports} {installId : String} {channel : Channel}
  {target : TargetPath → Except VerifyError TargetInfo} {available : Available}

theorem lookupTarget_eq_some {path : String} {info : PyTargetInfo} :
    lookupTarget target path = .ok (some info) ↔ bindingTarget target path = .ok (some info) := by
  unfold lookupTarget
  split <;> simp_all

/-- A release is offered when the pointer names a path of the channel, the metadata describes
that path under the pointer's version, and the installation is in the rollout. -/
theorem resolveRelease_eq_some {targetPath version : String} :
    resolveRelease ports installId channel target targetPath version = .ok (some available) ↔
      Text.startsWith targetPath channel.pathPrefix = true ∧
        available.targetPath = targetPath ∧ available.version = version ∧
        bindingTarget target targetPath = .ok (some available.info) ∧
        available.info.version = version ∧
        bindingInRollout ports.sha256 installId channel.appId available.info.rolloutPct =
          .ok true := by
  unfold resolveRelease
  by_cases hstarts : Text.startsWith targetPath channel.pathPrefix = true
  · simp only [hstarts, Bool.not_true, Bool.false_eq_true, if_false, Fallible.bind_eq_ok]
    constructor
    · rintro ⟨found, hlookup, hrest⟩
      cases found with
      | none => simp at hrest
      | some info =>
        by_cases hversion : info.version = version
        · simp only [hversion, ne_eq, not_true_eq_false, if_false, Fallible.bind_eq_ok,
            Fallible.mapError_eq_ok, Fallible.pure_eq_ok] at hrest
          obtain ⟨inside, hinside, hpure⟩ := hrest
          cases inside with
          | false => simp at hpure
          | true =>
            obtain rfl : ⟨version, targetPath, info⟩ = available := by simpa using hpure
            exact ⟨trivial, rfl, rfl, lookupTarget_eq_some.mp hlookup, hversion, hinside⟩
        · simp [hversion] at hrest
    · obtain ⟨v, p, info⟩ := available
      rintro ⟨-, rfl, rfl, hlookup, hversion, hinside⟩
      refine ⟨some info, lookupTarget_eq_some.mpr hlookup, ?_⟩
      simp only at hversion hinside
      simp only [hversion, hinside, ne_eq, not_true_eq_false, if_false]
      rfl
  · simp [hstarts]

/-- A check offers what the channel's pointer names, when the pointer is described, fits its
description and its bound, and parses. -/
theorem resolve_eq_some_iff :
    resolve ports installId channel target = .ok (some available) ↔
      ∃ seen pointer, bindingTarget target channel.pointerPath = .ok (some seen) ∧
        fetchVerified ports seen channel.pointerPath = .ok pointer ∧
        pointer.length ≤ MAX_POINTER_BYTES ∧
        parsePointer ports pointer = .ok (available.targetPath, available.version) ∧
        resolveRelease ports installId channel target available.targetPath available.version =
          .ok (some available) := by
  unfold resolve
  rw [Fallible.bind_eq_ok]
  constructor
  · rintro ⟨found, hfound, h⟩
    cases found with
    | none => simp at h
    | some seen =>
      simp only [Fallible.bind_eq_ok] at h
      obtain ⟨pointer, hpointer, h⟩ := h
      split at h
      · simp at h
      next hsize =>
        simp only [Fallible.bind_eq_ok] at h
        obtain ⟨⟨targetPath, version⟩, hparse, h⟩ := h
        obtain ⟨-, hpath, hversion, -⟩ := resolveRelease_eq_some.mp h
        refine ⟨seen, pointer, lookupTarget_eq_some.mp hfound, hpointer, by omega, ?_, ?_⟩
        · rw [hpath, hversion, hparse]
        · rwa [hpath, hversion]
  · rintro ⟨seen, pointer, hfound, hpointer, hsize, hparse, h⟩
    refine ⟨some seen, lookupTarget_eq_some.mpr hfound, ?_⟩
    simp only [Fallible.bind_eq_ok]
    refine ⟨pointer, hpointer, ?_⟩
    rw [if_neg (by omega), Fallible.bind_eq_ok]
    exact ⟨_, hparse, h⟩

theorem resolve_eq_some (h : resolve ports installId channel target = .ok (some available)) :
    resolveRelease ports installId channel target available.targetPath available.version =
      .ok (some available) := by
  obtain ⟨-, -, -, -, -, -, hrelease⟩ := resolve_eq_some_iff.mp h
  exact hrelease

theorem run_eq_some {updates : Updates} {root : Bytes} {clock : Clock} {systemTime : Int}
    (h : run ports updates installId channel root clock systemTime = .ok (some available)) :
    ∃ verifier, acceptMetadata ports updates channel root clock systemTime = .ok (some verifier) ∧
      resolve ports installId channel (verifier.target systemTime) = .ok (some available) := by
  unfold run at h
  rw [Fallible.bind_eq_ok] at h
  obtain ⟨verifier, haccept, h⟩ := h
  cases verifier with
  | none => simp at h
  | some verifier => exact ⟨verifier, haccept, h⟩

end Offer

/-! ## What a check accepts -/

section Accept

variable {ports : Ports} {channel : Channel}

/-- A check accepts a verifier when each of the four files is fetched under the version that the
file before it names, and passes. -/
theorem acceptMetadata_eq_some {updates : Updates} {root : Bytes} {clock : Clock}
    {systemTime : Int} {verifier : TufVerifier} :
    acceptMetadata ports updates channel root clock systemTime = .ok (some verifier) ↔
      ∃ v₀ raw₁ v₁ n₂ raw₂ v₂ n₃ raw₃ v₃ n₄ raw₄, bootstrap updates root clock = .ok v₀ ∧
        ports.fetch "timestamp.json" = .ok raw₁ ∧
        feed v₀ systemTime updates.timestamp raw₁ = .ok v₁ ∧ snapshotVersion v₁ = some n₂ ∧
        ports.fetch (toString n₂ ++ ".snapshot.json") = .ok raw₂ ∧
        feed v₁ systemTime updates.snapshot raw₂ = .ok v₂ ∧
        targetsVersion v₂ "targets" = some n₃ ∧
        ports.fetch (toString n₃ ++ ".targets.json") = .ok raw₃ ∧
        feed v₂ systemTime updates.targets raw₃ = .ok v₃ ∧
        targetsVersion v₃ channel.role = some n₄ ∧
        ports.fetch (toString n₄ ++ "." ++ channel.role ++ ".json") = .ok raw₄ ∧
        feed v₃ systemTime (delegatedUpdate updates channel.role) raw₄ = .ok verifier := by
  unfold acceptMetadata
  simp only [Fallible.bind_eq_ok, fetch, Fallible.mapError_eq_ok]
  constructor
  · rintro ⟨v₀, hboot, raw₁, hraw₁, v₁, hfed₁, h⟩
    split at h
    · simp at h
    next n₂ hn₂ =>
    simp only [Fallible.bind_eq_ok, Fallible.mapError_eq_ok] at h
    obtain ⟨raw₂, hraw₂, v₂, hfed₂, h⟩ := h
    split at h
    · simp at h
    next n₃ hn₃ =>
    simp only [Fallible.bind_eq_ok, Fallible.mapError_eq_ok] at h
    obtain ⟨raw₃, hraw₃, v₃, hfed₃, h⟩ := h
    split at h
    · simp at h
    next n₄ hn₄ =>
    simp only [Fallible.bind_eq_ok, Fallible.mapError_eq_ok, Fallible.pure_eq_ok,
      Option.some.injEq] at h
    obtain ⟨raw₄, hraw₄, v₄, hfed₄, rfl⟩ := h
    exact ⟨v₀, raw₁, v₁, n₂, raw₂, v₂, n₃, raw₃, v₃, n₄, raw₄, hboot, hraw₁, hfed₁, hn₂, hraw₂,
      hfed₂, hn₃, hraw₃, hfed₃, hn₄, hraw₄, hfed₄⟩
  · rintro ⟨v₀, raw₁, v₁, n₂, raw₂, v₂, n₃, raw₃, v₃, n₄, raw₄, hboot, hraw₁, hfed₁, hn₂, hraw₂,
      hfed₂, hn₃, hraw₃, hfed₃, hn₄, hraw₄, hfed₄⟩
    refine ⟨v₀, hboot, raw₁, hraw₁, v₁, hfed₁, ?_⟩
    simp only [hn₂, Fallible.bind_eq_ok, Fallible.mapError_eq_ok]
    refine ⟨raw₂, hraw₂, v₂, hfed₂, ?_⟩
    simp only [hn₃, Fallible.bind_eq_ok, Fallible.mapError_eq_ok]
    refine ⟨raw₃, hraw₃, v₃, hfed₃, ?_⟩
    simp only [hn₄, Fallible.bind_eq_ok, Fallible.mapError_eq_ok]
    exact ⟨raw₄, hraw₄, verifier, hfed₄, rfl⟩

end Accept

/-! ## The check asks only about its own channel -/

section Congr

variable {ports : Ports} {installId : String} {channel : Channel}
  {target target' : TargetPath → Except VerifyError TargetInfo}

theorem lookupTarget_congr {path : String}
    (h : ∀ parsed, TargetPath.parse (cString path) = .ok parsed →
      target parsed = target' parsed) :
    lookupTarget target path = lookupTarget target' path := by
  unfold lookupTarget
  rw [bindingTarget_congr h]

/-- Two mirrors that have the same pointer of a channel under each digest; they may serve
different metadata, and different payloads of other channels. -/
structure Ports.SamePointer (channel : Channel) (ports ports' : Ports) : Prop where
  fetch : ∀ digest, ports'.fetch ("targets/" ++ storedTargetPath channel.pointerPath digest) =
    ports.fetch ("targets/" ++ storedTargetPath channel.pointerPath digest)
  loads : ports'.loads = ports.loads
  sha256 : ports'.sha256 = ports.sha256

/-- Two verifiers that agree on every path under the channel's prefix, as far as the C
boundary carries it, resolve the channel alike. -/
theorem resolve_congr {ports' : Ports} (hports : ports.SamePointer channel ports')
    (h : ∀ path parsed, Text.startsWith path channel.pathPrefix = true →
      TargetPath.parse (cString path) = .ok parsed → target' parsed = target parsed) :
    resolve ports' installId channel target' = resolve ports installId channel target := by
  have hpointer : Text.startsWith channel.pointerPath channel.pathPrefix = true := by
    simp [Text.startsWith_iff, Channel.pointerPath, String.toList_append]
  have hrelease : ∀ targetPath version,
      resolveRelease ports' installId channel target' targetPath version =
        resolveRelease ports installId channel target targetPath version := by
    intro targetPath version
    unfold resolveRelease
    rw [hports.sha256]
    by_cases hp : Text.startsWith targetPath channel.pathPrefix = true
    · rw [lookupTarget_congr fun parsed => h targetPath parsed hp]
    · simp [hp, throw, throwThe, MonadExceptOf.throw, bind, Except.bind]
  have hfetch : ∀ info, fetchVerified ports' info channel.pointerPath =
      fetchVerified ports info channel.pointerPath := by
    intro info
    simp only [fetchVerified, fetch, hports.fetch, hports.sha256]
  have hparse : parsePointer ports' = parsePointer ports := by
    funext raw
    simp only [parsePointer, hports.loads]
  unfold resolve
  rw [lookupTarget_congr fun parsed => h channel.pointerPath parsed hpointer]
  simp only [hrelease, hfetch, hparse]

theorem run_of_accepted {updates : Updates} {root : Bytes} {clock : Clock} {systemTime : Int}
    {verifier : TufVerifier}
    (h : acceptMetadata ports updates channel root clock systemTime = .ok (some verifier)) :
    run ports updates installId channel root clock systemTime =
      resolve ports installId channel (verifier.target systemTime) := by
  simp [run, h, bind, Except.bind]

/-- What the C boundary carries of a path under the channel's prefix begins with the
application's segment, when the path is accepted at all. -/
theorem firstSegment_of_parse {path : String} {parsed : TargetPath}
    (hid : '/' ∉ channel.appId.toList) (hnul : Char.ofNat 0 ∉ channel.appId.toList)
    (hp : Text.startsWith path channel.pathPrefix = true)
    (hparse : TargetPath.parse (cString path) = .ok parsed) :
    Text.firstSegment parsed.asStr = channel.appId.toList := by
  have hraw : parsed.asStr = cString path := asStr_of_parse hparse
  obtain ⟨rest, hrest⟩ := Text.startsWith_iff.mp hp
  have hpath : path.toList = channel.appId.toList ++ '/' ::
      ((channel.channel ++ "/" ++ channel.platform ++ "-" ++ channel.arch ++ "/").toList ++ rest) := by
    rw [← hrest]
    simp [Channel.pathPrefix, String.toList_append]
  rw [Text.firstSegment, hraw, cString, String.toList_ofList, hpath,
    List.takeWhile_append_of_pos (by grind)]
  rw [List.takeWhile_cons_of_pos (by decide)]
  exact Text.firstSegment_append_slash _ _ hid

end Congr

end DistPlatform.Client
