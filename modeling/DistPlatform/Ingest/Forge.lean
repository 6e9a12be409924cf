import DistPlatform.Library.Json
import DistPlatform.Library.Fallible
import DistPlatform.Library.Text

/-!
# Candidate releases from a forge (`dist_ingest.forge`)

What a forge says about its latest release, read out of an API response. Nothing here is
trusted: tag, assets and declared digests are whatever the response holds.

## Main definitions

* `versionFromTag` — the version a tag stands for, or the refusal.
* `ForgeRelease`, `ForgeAsset` — a release as the forge describes it.
* `latestReleaseGitHub`, `latestReleaseGitLab` — the release in a response body.
-/

namespace DistPlatform.Ingest

/-- A forge could not be queried, or answered with something unusable. -/
structure ForgeError where
  message : String
  deriving DecidableEq, Repr

structure ForgeAsset where
  name : String
  size : Int
  downloadUrl : String
  declaredSha256 : Option String
  deriving DecidableEq, Repr

def VERSION_PLACEHOLDER := "\x7bversion\x7d"

structure ForgeRelease where
  tag : String
  version : String
  assets : List ForgeAsset
  deriving DecidableEq, Repr

/-- `s.replace(old, new)` for a non-empty `old`: `skip` characters still belong to the
occurrence just replaced. -/
def replaceFrom (old new : List Char) : Nat → List Char → List Char
  | _, [] => []
  | skip + 1, _ :: cs => replaceFrom old new skip cs
  | 0, c :: cs =>
    if old.isPrefixOf (c :: cs) then new ++ replaceFrom old new (old.length - 1) cs
    else c :: replaceFrom old new 0 cs

namespace ForgeRelease

def resolveAssetName (release : ForgeRelease) (name : String) : String :=
  String.ofList
    (replaceFrom VERSION_PLACEHOLDER.toList release.version.toList 0 name.toList)

def asset (release : ForgeRelease) (name : String) : Option ForgeAsset :=
  release.assets.find? (·.name == release.resolveAssetName name)

theorem name_of_asset {release : ForgeRelease} {name : String} {asset : ForgeAsset}
    (h : release.asset name = some asset) : asset.name = release.resolveAssetName name := by
  simpa using List.find?_some h

end ForgeRelease

/-! ## Versions -/

def isDigit (c : Char) : Bool := '0' ≤ c && c ≤ '9'

/-- `[0-9A-Za-z.]` -/
def isSuffixChar (c : Char) : Bool :=
  isDigit c || ('A' ≤ c && c ≤ 'Z') || ('a' ≤ c && c ≤ 'z') || c == '.'

/-- `[0-9]+(?:\.[0-9]+)*` -/
def isDotted (cs : List Char) : Bool :=
  (cs.splitOn '.').all fun part => !part.isEmpty && part.all isDigit

/-- `_VERSION.match`: dotted numbers, then at most one suffix after `-` or `+`. -/
def versionMatches (version : String) : Bool :=
  isDotted (version.toList.takeWhile fun c => c != '-' && c != '+') &&
    match version.toList.dropWhile fun c => c != '-' && c != '+' with
    | [] => true
    | _ :: suffix => !suffix.isEmpty && suffix.all isSuffixChar

/-- The tag without the configured prefix, where it has it. -/
def stripPrefix (tag tagPrefix : String) : String :=
  if tagPrefix ≠ "" ∧ Text.startsWith tag tagPrefix then
    String.ofList (tag.toList.drop tagPrefix.toList.length)
  else tag

def versionFromTag (tag tagPrefix : String) : Except ForgeError String :=
  if versionMatches (stripPrefix tag tagPrefix) then .ok (stripPrefix tag tagPrefix)
  else .error ⟨"tag " ++ Text.quoted tag ++ " does not yield a usable version"⟩

/-! ## Response bodies -/

/-- Python's truth value of a JSON value. -/
def truthy : Json → Bool
  | .null => false
  | .bool b => b
  | .int i => i != 0
  | .real m _ => m != 0
  | .str s => s != ""
  | .arr xs => !xs.isEmpty
  | .obj members => !members.isEmpty

/-- `body.get(name)` where it is true. -/
def getTruthy (name : String) (body : Json) : Option Json := (body.get? name).filter truthy

/-- What `latest_release` can end in besides a release. -/
inductive ReleaseFailure
  | ForgeError (error : ForgeError)
  /-- `int(raw.get("size") or 0)` raised. -/
  | BadSize
  deriving DecidableEq, Repr

section Body

-- Python's `int(value)`; nothing where it raises
variable (intOf : Json → Option Int)

/-- One entry of a GitHub `assets` array; nothing where it is passed over. -/
def githubAsset (raw : Json) : Option (Except ReleaseFailure ForgeAsset) :=
  if raw.getStr? "state" ≠ some "uploaded" then none
  else match raw.getStr? "name", raw.getStr? "browser_download_url" with
    | some name, some url => some (match intOf ((getTruthy "size" raw).getD (.int 0)) with
      | none => .error .BadSize
      | some size => .ok {
          name, size
          downloadUrl := url
          declaredSha256 := (raw.getStr? "digest").bind fun digest =>
            if Text.startsWith digest "sha256:" then
              some (String.ofList (digest.toList.drop 7))
            else none })
    | _, _ => none

/-- One entry of a GitLab `assets.links` array. -/
def gitlabAsset (raw : Json) : Option ForgeAsset :=
  match raw.getStr? "name",
      ((getTruthy "direct_asset_url" raw).or (raw.get? "url")).bind Json.str? with
  | some name, some url => some ⟨name, 0, url, none⟩
  | _, _ => none

/-- The tag every release needs. -/
def tagOf (body : Json) : Except ReleaseFailure String :=
  match body.getStr? "tag_name" with
  | none | some "" => .error (.ForgeError ⟨"release has no tag_name"⟩)
  | some tag => .ok tag

/-- The end of both `latest_release`: the version comes from the listed tag. -/
def releaseOf (tagPrefix tag : String) (assets : List ForgeAsset) :
    Except ReleaseFailure (Option ForgeRelease) :=
  match versionFromTag tag tagPrefix with
  | .error e => .error (.ForgeError e)
  | .ok version => .ok (some ⟨tag, version, assets⟩)

/-- `GitHubReleaseSource.latest_release`, from the response; `none` is a 404. -/
def latestReleaseGitHub (tagPrefix : String) :
    Option Json → Except ReleaseFailure (Option ForgeRelease)
  | none => .ok none
  | some body =>
    if ((getTruthy "draft" body).or (getTruthy "prerelease" body)).isSome then .ok none
    else do
      let tag ← tagOf body
      let assets ← ((((body.get? "assets").bind Json.arr?).getD []).filterMap
        (githubAsset intOf)).mapM id
      releaseOf tagPrefix tag assets

/-- `GitLabReleaseSource.latest_release`. -/
def latestReleaseGitLab (tagPrefix : String) :
    Option Json → Except ReleaseFailure (Option ForgeRelease)
  | none => .ok none
  | some body =>
    if (getTruthy "upcoming_release" body).isSome then .ok none
    else do
      let tag ← tagOf body
      releaseOf tagPrefix tag
        (((((body.get? "assets").bind (·.get? "links")).bind Json.arr?).getD []).filterMap
          gitlabAsset)

end Body

theorem releaseOf_eq_ok {tagPrefix tag : String} {assets : List ForgeAsset}
    {release : ForgeRelease} (h : releaseOf tagPrefix tag assets = .ok (some release)) :
    versionFromTag release.tag tagPrefix = .ok release.version := by
  unfold releaseOf at h
  split at h
  · cases h
  next version hv =>
    obtain rfl := Option.some.inj (Except.ok.inj h)
    exact hv

theorem latestReleaseGitHub_version {intOf : Json → Option Int} {tagPrefix : String}
    {body : Option Json} {release : ForgeRelease}
    (h : latestReleaseGitHub intOf tagPrefix body = .ok (some release)) :
    versionFromTag release.tag tagPrefix = .ok release.version := by
  unfold latestReleaseGitHub at h
  split at h
  · cases h
  · split at h
    · cases h
    · simp only [Fallible.bind_eq_ok] at h
      obtain ⟨tag, -, assets, -, h⟩ := h
      exact releaseOf_eq_ok h

theorem latestReleaseGitLab_version {tagPrefix : String} {body : Option Json}
    {release : ForgeRelease} (h : latestReleaseGitLab tagPrefix body = .ok (some release)) :
    versionFromTag release.tag tagPrefix = .ok release.version := by
  unfold latestReleaseGitLab at h
  split at h
  · cases h
  · split at h
    · cases h
    · simp only [Fallible.bind_eq_ok] at h
      obtain ⟨tag, -, h⟩ := h
      exact releaseOf_eq_ok h

end DistPlatform.Ingest
