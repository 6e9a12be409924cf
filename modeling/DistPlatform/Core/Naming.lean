import DistPlatform.Core.Roles
import DistPlatform.Library.Json

/-!
# Target naming (`dist_core.naming`)

A release is published at `<app>/<channel>/<platform>-<arch>/<version>/<file>`, the channel
pointer at the same depth with a version segment no release can use. Keys carry the checks
of their constructors as fields, so a key that exists renders a path.

## Main definitions

* `TargetKey`, `ChannelKey` — the validated names of a release and of a channel.
* `appPathPattern` — the delegation pattern of an application.
* `ReleaseInfo`, `CurrentRelease` — what is signed next to a target.
-/

namespace DistPlatform.Core

open DistPlatform

def CHANNELS : List String := ["stable", "beta", "canary"]

theorem stable_known : "stable" ∈ CHANNELS := by decide

/-- `[A-Za-z0-9]` -/
def segmentFirst (c : Char) : Bool :=
  ('A' ≤ c && c ≤ 'Z') || ('a' ≤ c && c ≤ 'z') || ('0' ≤ c && c ≤ '9')

/-- `[A-Za-z0-9._-]` -/
def segmentRest (c : Char) : Bool := segmentFirst c || c == '.' || c == '_' || c == '-'

def segmentBody : List Char → Bool
  | [] => false
  | c :: cs => segmentFirst c && cs.all segmentRest

/-- `_SEGMENT.match`. -/
def segmentMatches (value : String) : Bool := Text.endsAnchored segmentBody value.toList

def checkSegment (name value : String) : Except ValueError Unit :=
  if segmentMatches value then .ok ()
  else .error ⟨"invalid " ++ name ++ " " ++ Text.quoted value ++
    ": must match ^[A-Za-z0-9][A-Za-z0-9._-]*$"⟩

theorem checkSegment_eq_ok {name value : String} :
    checkSegment name value = .ok () ↔ segmentMatches value = true := by
  simp [checkSegment]

/-- The `for field in (...)` loop of both constructors: the first bad field is reported. -/
def checkFields : List (String × String) → Except ValueError Unit
  | [] => .ok ()
  | (name, value) :: fields => do
    checkSegment name value
    checkFields fields

theorem checkFields_eq_ok {fields : List (String × String)} :
    checkFields fields = .ok () ↔ ∀ v ∈ fields.map (·.2), segmentMatches v = true := by
  induction fields with
  | nil => simp [checkFields]
  | cons f fields ih =>
    obtain ⟨name, value⟩ := f
    by_cases h : segmentMatches value = true
    · simp [checkFields, checkSegment, h, bind, Except.bind, ih]
    · simp [checkFields, checkSegment, h, bind, Except.bind]

def unknownChannel (channel : String) : ValueError :=
  ⟨"unknown channel " ++ Text.quoted channel ++ ", expected one of ['beta', 'canary', 'stable']"⟩

/-- Identifies one published artifact. -/
structure TargetKey where
  appId : String
  channel : String
  platform : String
  arch : String
  version : String
  filename : String
  channelKnown : channel ∈ CHANNELS
  segmentsSafe : ∀ v ∈ [appId, platform, arch, version, filename], segmentMatches v = true
  deriving DecidableEq

theorem TargetKey.version_safe (key : TargetKey) : segmentMatches key.version = true :=
  key.segmentsSafe _ (by simp)

/-- `TargetKey(...)`: the dataclass constructor with its `__post_init__`. -/
def TargetKey.make (appId channel platform arch version filename : String) :
    Except ValueError TargetKey :=
  if hc : channel ∈ CHANNELS then
    match hf : checkFields [("app_id", appId), ("platform", platform), ("arch", arch),
        ("version", version), ("filename", filename)] with
    | .error e => .error e
    | .ok () => .ok ⟨appId, channel, platform, arch, version, filename, hc,
        checkFields_eq_ok.mp hf⟩
  else .error (unknownChannel channel)

/-- `<app_id>/<channel>/<platform>-<arch>/` -/
def channelPrefix (appId channel platform arch : String) : String :=
  appId ++ "/" ++ channel ++ "/" ++ platform ++ "-" ++ arch ++ "/"

def TargetKey.path (key : TargetKey) : String :=
  channelPrefix key.appId key.channel key.platform key.arch ++ key.version ++ "/" ++ key.filename

def TARGET_PATH_SEGMENTS := 5

/-- `"/".join([app_id, *["*"] * (TARGET_PATH_SEGMENTS - 1)])` -/
def appPathPattern (appId : String) : String :=
  "/".intercalate (appId :: List.replicate (TARGET_PATH_SEGMENTS - 1) "*")

def POINTER_VERSION := "_current"
def POINTER_FILE := "release.json"

/-- One application's update channel for one platform. -/
structure ChannelKey where
  appId : String
  channel : String
  platform : String
  arch : String
  channelKnown : channel ∈ CHANNELS
  segmentsSafe : ∀ v ∈ [appId, platform, arch], segmentMatches v = true
  deriving DecidableEq

namespace ChannelKey

/-- `ChannelKey(...)`, with its `__post_init__`. -/
def make (appId channel platform arch : String) : Except ValueError ChannelKey :=
  if hc : channel ∈ CHANNELS then
    match hf : checkFields [("app_id", appId), ("platform", platform), ("arch", arch)] with
    | .error e => .error e
    | .ok () => .ok ⟨appId, channel, platform, arch, hc, checkFields_eq_ok.mp hf⟩
  else .error (unknownChannel channel)

def pathPrefix (key : ChannelKey) : String :=
  channelPrefix key.appId key.channel key.platform key.arch

def pointerPath (key : ChannelKey) : String :=
  key.pathPrefix ++ POINTER_VERSION ++ "/" ++ POINTER_FILE

def covers (key : ChannelKey) (targetPath : String) : Bool :=
  Text.startsWith targetPath key.pathPrefix

end ChannelKey

/-- The channel a release belongs to; its fields were checked with the release's own. -/
def TargetKey.channelKey (key : TargetKey) : ChannelKey where
  appId := key.appId
  channel := key.channel
  platform := key.platform
  arch := key.arch
  channelKnown := key.channelKnown
  segmentsSafe v hv := key.segmentsSafe v (by grind)

/-- Signed `custom` metadata attached to a target. -/
structure ReleaseInfo where
  version : String
  notesUrl : Option String := none
  minOs : Option String := none
  minFromVersion : Option String := none
  mandatory : Bool := false
  rolloutPct : Int := 100
  versionSafe : segmentMatches version = true
  pctInRange : 0 ≤ rolloutPct ∧ rolloutPct ≤ 100
  deriving DecidableEq

/-- The default percentage is one. -/
theorem hundred_inRange : (0 : Int) ≤ 100 ∧ (100 : Int) ≤ 100 := by decide

/-- `ReleaseInfo(...)`, with its `__post_init__`. -/
def ReleaseInfo.make (version : String) (notesUrl minOs minFromVersion : Option String)
    (mandatory : Bool) (rolloutPct : Int) : Except ValueError ReleaseInfo :=
  match hv : checkSegment "version" version with
  | .error e => .error e
  | .ok () =>
    if hp : 0 ≤ rolloutPct ∧ rolloutPct ≤ 100 then
      .ok ⟨version, notesUrl, minOs, minFromVersion, mandatory, rolloutPct,
        checkSegment_eq_ok.mp hv, hp⟩
    else .error ⟨"rollout_pct must be 0..100, got " ++ toString rolloutPct⟩

/-- Contents of the channel pointer: which release is current. -/
structure CurrentRelease where
  targetPath : String
  version : String
  versionSafe : segmentMatches version = true
  pathUsable : targetPath ≠ "" ∧ '\\' ∉ targetPath.toList
  deriving DecidableEq

/-- `to_custom`: an optional field is left out where it is not set. -/
def ReleaseInfo.toCustom (info : ReleaseInfo) : List (String × Json) :=
  [("version", .str info.version), ("mandatory", .bool info.mandatory),
    ("rollout_pct", .int info.rolloutPct)] ++
  [("notes_url", info.notesUrl), ("min_os", info.minOs),
    ("min_from_version", info.minFromVersion)].filterMap fun (name, value) =>
      value.map fun text => (name, .str text)

/-- `CurrentRelease(...)`, with its `__post_init__`. -/
def CurrentRelease.make (targetPath version : String) : Except ValueError CurrentRelease :=
  match hv : checkSegment "version" version with
  | .error e => .error e
  | .ok () =>
    if hp : targetPath ≠ "" ∧ '\\' ∉ targetPath.toList then
      .ok ⟨targetPath, version, checkSegment_eq_ok.mp hv, hp⟩
    else .error ⟨"invalid target_path " ++ Text.quoted targetPath⟩

/-- The object `to_json` writes, its names sorted. -/
def CurrentRelease.toJson (release : CurrentRelease) : Json :=
  .obj [("target_path", .str release.targetPath), ("version", .str release.version)]

/-! ## What the constructors accept -/

theorem targetKey_make_isOk {appId channel platform arch version filename : String} :
    (∃ key, TargetKey.make appId channel platform arch version filename = .ok key) ↔
      channel ∈ CHANNELS ∧
        ∀ v ∈ [appId, platform, arch, version, filename], segmentMatches v = true := by
  constructor
  · rintro ⟨key, hkey⟩
    unfold TargetKey.make at hkey
    split at hkey
    next hc =>
      split at hkey
      · cases hkey
      next hf => exact ⟨hc, checkFields_eq_ok.mp hf⟩
    · cases hkey
  · rintro ⟨hc, hf⟩
    have hfields : checkFields [("app_id", appId), ("platform", platform), ("arch", arch),
        ("version", version), ("filename", filename)] = .ok () := checkFields_eq_ok.mpr hf
    refine ⟨⟨appId, channel, platform, arch, version, filename, hc, hf⟩, ?_⟩
    unfold TargetKey.make
    rw [dif_pos hc]
    split
    next e he =>
      rw [hfields] at he
      cases he
    next => rfl

/-- A key has the fields that it was made of. -/
theorem targetKey_make_eq_ok {appId channel platform arch version filename : String}
    {key : TargetKey}
    (h : TargetKey.make appId channel platform arch version filename = .ok key) :
    key.appId = appId ∧ key.channel = channel ∧ key.platform = platform ∧ key.arch = arch ∧
      key.version = version ∧ key.filename = filename := by
  unfold TargetKey.make at h
  split at h
  · split at h
    · cases h
    · obtain rfl := Except.ok.inj h
      exact ⟨rfl, rfl, rfl, rfl, rfl, rfl⟩
  · cases h

/-- A key's channel and release info can be built from its fields. -/
theorem channelKey_make (key : TargetKey) :
    ChannelKey.make key.appId key.channel key.platform key.arch = .ok key.channelKey := by
  have hfields : checkFields [("app_id", key.appId), ("platform", key.platform),
      ("arch", key.arch)] = .ok () := checkFields_eq_ok.mpr key.channelKey.segmentsSafe
  unfold ChannelKey.make
  rw [dif_pos key.channelKnown]
  split
  next e he =>
    rw [hfields] at he
    cases he
  next => rfl

theorem releaseInfo_make (key : TargetKey) :
    ∃ info, ReleaseInfo.make key.version none none none false 100 = .ok info ∧
      info.version = key.version := by
  have hversion : checkSegment "version" key.version = .ok () :=
    checkSegment_eq_ok.mpr (key.segmentsSafe key.version (by simp))
  refine ⟨⟨key.version, none, none, none, false, 100, checkSegment_eq_ok.mp hversion,
    by decide⟩, ?_, rfl⟩
  unfold ReleaseInfo.make
  split
  next e he =>
    rw [hversion] at he
    cases he
  next => rw [dif_pos (by decide)]

/-! ## Segments and patterns -/

theorem segmentBody_chars {cs : List Char} (h : segmentBody cs = true) :
    ∀ c ∈ cs, segmentRest c = true := by
  cases cs with
  | nil => simp
  | cons c cs =>
    simp only [segmentBody, Bool.and_eq_true, List.all_eq_true] at h
    intro d hd
    rcases List.mem_cons.mp hd with rfl | hd
    · simp [segmentRest, h.1]
    · exact h.2 d hd

/-- A checked value is made of segment characters, and of the line feed that `$` lets stand. -/
theorem segmentMatches_chars {value : String} (h : segmentMatches value = true) :
    ∀ c ∈ value.toList, segmentRest c = true ∨ c = '\n' :=
  Text.endsAnchored_chars (fun _ => segmentBody_chars) h

theorem slash_not_mem {value : String} (h : segmentMatches value = true) :
    '/' ∉ value.toList := by
  intro hc
  obtain hc | hc := segmentMatches_chars h _ hc
  · exact absurd hc (by decide)
  · exact absurd hc (by decide)

theorem slash_not_mem_channel {channel : String} (h : channel ∈ CHANNELS) :
    '/' ∉ channel.toList := by
  simp only [CHANNELS, List.mem_cons, List.not_mem_nil, or_false] at h
  rcases h with rfl | rfl | rfl <;> decide

/-- An application's pattern has its id as first segment and a wildcard in each of the
other four. -/
theorem segments_appPathPattern {appId : String} (h : '/' ∉ appId.toList) :
    Text.segments (appPathPattern appId) = [appId.toList, ['*'], ['*'], ['*'], ['*']] := by
  have hp : (appPathPattern appId).toList = appId.toList ++ '/' :: "*/*/*/*".toList := by
    simp [appPathPattern, TARGET_PATH_SEGMENTS, List.replicate_succ]
  rw [Text.segments, hp, Text.splitOn_append_slash _ _ h]
  rfl

end DistPlatform.Core
