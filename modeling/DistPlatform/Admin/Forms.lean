import DistPlatform.Core.Naming
import DistPlatform.Library.Fallible
import DistPlatform.Library.Table
import DistPlatform.Registry.Store

/-!
# What an operator typed (`dist_admin.forms`)

Registration and edit turn submitted fields into a source or a change of one, or refuse with
a message for the operator. Every text is stripped before it is looked at.

## Main definitions

* `sourceFromForm` — a registration.
* `sourceEditFromForm` — an edit, reduced to what it changes.
-/

namespace DistPlatform.Admin

open DistPlatform.Core (appIdMatches segmentFirst segmentRest)
open Registry (Forge Source SourceEdit SourceId)

/-! ## Fields -/

/-- A submitted field is text or an uploaded file. -/
inductive FormValue
  | text (value : String)
  | upload
  deriving DecidableEq, Repr

abbrev FormData := Table String FormValue

/-- `FormError` is shown to the operator; `ValueError` is what a library raised. -/
inductive FormFailure
  | FormError (message : String)
  | ValueError (message : String)
  deriving DecidableEq, Repr

/-- What `urlsplit` answers. -/
structure SplitResult where
  scheme : String
  hostname : Option String
  path : String
  query : String
  fragment : String
  deriving DecidableEq, Repr

/-- What the forms use of Python's library: `int` and the key parser answer nothing where they
raise. -/
structure Python where
  urlsplit : String → Except String SplitResult
  lower : String → String
  int : String → Option Int
  loadPemPublicKey : String → Except String Unit

/-- The characters `str.strip` takes away. -/
def isSpace (c : Char) : Bool :=
  (9 ≤ c.toNat && c.toNat ≤ 13) || (28 ≤ c.toNat && c.toNat ≤ 32) || c.toNat == 0x85 ||
    c.toNat == 0xa0 || c.toNat == 0x1680 || (0x2000 ≤ c.toNat && c.toNat ≤ 0x200a) ||
    c.toNat == 0x2028 || c.toNat == 0x2029 || c.toNat == 0x202f || c.toNat == 0x205f ||
    c.toNat == 0x3000

/-- `s.strip(...)`, for the characters in `p`. -/
def stripChars (p : Char → Bool) (s : List Char) : List Char :=
  ((s.dropWhile p).reverse.dropWhile p).reverse

def strip (s : String) : String := String.ofList (stripChars isSpace s.toList)

/-- `s.rstrip("/")`. -/
def rstripSlash (s : String) : String :=
  String.ofList (s.toList.reverse.dropWhile (· == '/')).reverse

/-- `_text`. -/
def text (data : FormData) (key default : String) : Except FormFailure String :=
  match data.get key with
  | none => .ok (strip default)
  | some (.text value) => .ok (strip value)
  | some .upload => .error (.FormError (key ++ " must be text"))

/-- `value or default`. -/
def orElse (value default : String) : String := if value = "" then default else value

/-- `_require`. -/
def require (value field : String) : Except FormFailure String :=
  if value = "" then .error (.FormError (field ++ " is required")) else .ok value

/-! ## Patterns -/

/-- `_PROJECT`: two to five segments over `[A-Za-z0-9._-]`. -/
def projectMatches (project : String) : Bool :=
  let segments := Text.segments project
  2 ≤ segments.length && segments.length ≤ 5 &&
    segments.all fun segment => !segment.isEmpty && segment.all segmentRest

/-- `[A-Za-z0-9._+{}-]` -/
def assetRest (c : Char) : Bool := segmentRest c || c == '+' || c == '\x7b' || c == '\x7d'

/-- `_ASSET` -/
def assetMatches (assetName : String) : Bool :=
  match assetName.toList with
  | [] => false
  | c :: cs => segmentFirst c && cs.all assetRest && cs.length ≤ 127

def isBrace (c : Char) : Bool := c == '\x7b' || c == '\x7d'

/-- `_ASSET_PLACEHOLDER.findall`. What an occurrence encloses holds no brace, so the search may
go on right behind the opening one. -/
def placeholders : List Char → List (List Char)
  | [] => []
  | c :: cs =>
    if c == '\x7b' && (cs.dropWhile fun d => !isBrace d).head? == some '\x7d' then
      (cs.takeWhile fun d => !isBrace d) :: placeholders cs
    else placeholders cs

/-- `_TAG_PREFIX` -/
def tagPrefixMatches (tagPrefix : String) : Bool :=
  tagPrefix.toList.all segmentRest && tagPrefix.toList.length ≤ 16

/-- `_SLUG` -/
def slugMatches (value : String) : Bool :=
  match value.toList with
  | [] => false
  | c :: cs => Core.appIdFirst c && cs.all Core.appIdRest && cs.length ≤ 31

/-- `_no_traversal` -/
def noTraversal (path : String) : Bool :=
  (Text.segments path).all fun segment => segment != ['.'] && segment != ['.', '.']

def MAX_ASSET_BYTES_CEILING := 8 * 1024 * 1024 * 1024

def DEFAULT_API_BASE : Forge → String
  | .GITHUB => "https://api.github.com"
  | .GITLAB => "https://gitlab.com"

def DEFAULT_OIDC_ISSUER := "https://token.actions.githubusercontent.com"

def DEFAULT_WORKFLOW_PATH := ".github/workflows/release.yml"

def derivedWorkflowUri (projectUrl : String) : String := projectUrl ++ "/" ++ DEFAULT_WORKFLOW_PATH

section Forms

variable (py : Python)

/-! ## Suggestions -/

/-- `re.sub("[^a-z0-9]+", "-", s)`: the last character of a run stands for the run. -/
def dashed : List Char → List Char
  | [] => []
  | c :: cs =>
    if Core.appIdFirst c then c :: dashed cs
    else if cs.head?.any fun d => !Core.appIdFirst d then dashed cs
    else '-' :: dashed cs

/-- `_suggest_app_id` -/
def suggestAppId (typed : String) : Option String :=
  let candidate :=
    String.ofList (stripChars (· == '-') (dashed (py.lower (strip typed)).toList))
  if candidate = typed ∨ appIdMatches candidate = false then none else some candidate

/-- `s.removesuffix(".git")` -/
def removeGit (s : List Char) : List Char :=
  if ".git".toList.isSuffixOf s then s.take (s.length - ".git".length) else s

/-- `_suggest_project`, with the host of the pasted URL. -/
def suggestProject (typed : String) : Except FormFailure (Option (String × String)) := do
  let parts ← (py.urlsplit typed).mapError .ValueError
  let candidate := String.ofList (removeGit (stripChars (· == '/') parts.path.toList))
  return match Registry.present parts.hostname with
  | none => none
  | some host =>
    if parts.scheme = "" ∨ candidate = "" ∨ projectMatches candidate = false ∨
        noTraversal candidate = false then none
    else some (candidate, host)

/-! ## Checked fields -/

/-- `_https` -/
def https (value field : String) : Except FormFailure String := do
  let parts ← (py.urlsplit value).mapError .ValueError
  if parts.scheme ≠ "https" ∨ (Registry.present parts.hostname).isNone then
    throw (.FormError (field ++ " must be an https:// URL with a host"))
  if parts.query ≠ "" ∨ parts.fragment ≠ "" then
    throw (.FormError (field ++ " must not carry a query string or fragment"))
  return rstripSlash value

/-- `_positive_int` -/
def positiveInt (data : FormData) (key : String) (default : Nat) : Except FormFailure Nat := do
  let raw ← text data key ""
  if raw = "" then return default
  match py.int raw with
  | none => throw (.FormError (key ++ " must be a whole number"))
  | some value =>
    if value ≤ 0 then throw (.FormError (key ++ " must be greater than zero"))
    return value.toNat

/-- `_checkbox` -/
def checkbox (data : FormData) (key : String) : Except FormFailure Bool := do
  return py.lower (← text data key "") ∈ ["on", "true", "1", "yes"]

/-- `_slug` -/
def slug (data : FormData) (key default field : String) : Except FormFailure String := do
  let value := orElse (← text data key "") default
  if slugMatches value then return value
  else throw (.FormError (field ++ " must be lower case letters, digits and hyphens"))

/-- The application id of a registration. -/
def appIdField (data : FormData) : Except FormFailure String := do
  let appId ← require (← text data "app_id" "") "Application id"
  if appIdMatches appId then return appId
  else
    let suggestion := match suggestAppId py appId with
      | none => ""
      | some suggestion => " — did you mean " ++ Text.quoted suggestion ++ "?"
    throw (.FormError ("application id must be lower case letters, digits and hyphens, " ++
      "2 to 63 characters" ++ suggestion))

/-- `Forge(raw_forge)` -/
def forgeField (data : FormData) : Except FormFailure Forge := do
  let rawForge ← require (← text data "forge" "") "Forge"
  if rawForge = "github" then return .GITHUB
  else if rawForge = "gitlab" then return .GITLAB
  else throw (.FormError ("unknown forge " ++ Text.quoted rawForge))

def projectField (data : FormData) : Except FormFailure String := do
  let project ← require (← text data "project" "") "Project"
  if projectMatches project && noTraversal project then return project
  else
    let suggestion := match ← suggestProject py project with
      | none => ""
      | some (suggestion, host) => " — did you mean " ++ Text.quoted suggestion ++
        "? The host (" ++ host ++ ") belongs in API base, not here."
    throw (.FormError ("project must look like 'owner/repo', with no scheme and no '..'" ++
      suggestion))

/-- The installer asset, as both forms check it. -/
def assetField (data : FormData) : Except FormFailure String := do
  let assetName ← require (← text data "asset_name" "") "Installer asset"
  if !assetMatches assetName then
    throw (.FormError "installer asset must be a bare filename with no path separators")
  match (placeholders assetName.toList).find? (· ≠ "version".toList) with
  | some found => throw (.FormError ("unknown placeholder " ++
      Text.quoted ("\x7b" ++ String.ofList found ++ "\x7d") ++
      " in the installer asset; only \x7bversion\x7d is substituted"))
  | none =>
    if assetName.toList.count '\x7b' ≠ assetName.toList.count '\x7d' then
      throw (.FormError "unbalanced braces in the installer asset name")
    return assetName

def tagPrefixField (data : FormData) (default : String) : Except FormFailure String := do
  let tagPrefix ← text data "tag_prefix" default
  if tagPrefixMatches tagPrefix then return tagPrefix
  else throw (.FormError
    "tag prefix may only contain letters, digits, dot, dash and underscore")

def refPrefixField (data : FormData) (default : String) : Except FormFailure String := do
  let refPrefix := orElse (← text data "require_tag_ref_prefix" "") default
  if Text.startsWith refPrefix "refs/" then return refPrefix
  else throw (.FormError ("the required ref prefix must start with 'refs/' — it is what " ++
    "stops a build from an unprotected branch being accepted"))

def maxAssetBytesField (data : FormData) (default : Nat) : Except FormFailure Nat := do
  let maxAssetBytes ← positiveInt py data "max_asset_bytes" default
  if MAX_ASSET_BYTES_CEILING < maxAssetBytes then
    throw (.FormError ("the asset cap may not exceed " ++ toString MAX_ASSET_BYTES_CEILING ++
      " bytes"))
  return maxAssetBytes

/-- `_project_url` -/
def projectUrl (forge : Forge) (apiBase project : String) : Except FormFailure String :=
  match forge with
  | .GITLAB => .ok (apiBase ++ "/" ++ project)
  | .GITHUB => do
    let host ← if apiBase = DEFAULT_API_BASE .GITHUB then pure "github.com"
      else do
        let parts ← (py.urlsplit apiBase).mapError .ValueError
        return parts.hostname.getD "None"
    return "https://" ++ host ++ "/" ++ project

/-! ## The two forms -/

/-- `_github_fields` -/
def githubFields (data : FormData) (source : Source) : Except FormFailure Source := do
  let submitted ← text data "workflow_uri" ""
  let workflowUri ← https py (orElse submitted (derivedWorkflowUri source.projectUrl))
    "Release workflow URI"
  if '@' ∈ workflowUri.toList then
    throw (.FormError ("give the workflow without a ref — the ref changes every release and " ++
      "is checked separately against the required ref prefix"))
  let oidcIssuer ← https py (orElse (← text data "oidc_issuer" "") DEFAULT_OIDC_ISSUER)
    "OIDC issuer"
  let runnerEnvironment := orElse (← text data "runner_environment" "") "github-hosted"
  return { source with
    workflowUri := some workflowUri, oidcIssuer := some oidcIssuer, runnerEnvironment }

/-- `_gitlab_fields` -/
def gitlabFields (data : FormData) (source : Source) : Except FormFailure Source := do
  let pem ← require (← text data "builder_public_key_pem" "") "Builder public key"
  match py.loadPemPublicKey pem with
  | .error e => throw (.FormError ("builder public key is not a usable PEM public key: " ++ e))
  | .ok () =>
    let builderId ← require (← text data "builder_id" "") "Builder id"
    let builderKeyid ← require (← text data "builder_keyid" "") "Builder key id"
    let attestationAsset := orElse (← text data "attestation_asset" "") "provenance.intoto.jsonl"
    return { source with
      builderId := some builderId
      builderKeyid := some builderKeyid
      builderPublicKeyPem := some pem
      attestationAsset }

/-- `source_from_form`; `id` is the fresh id. -/
def sourceFromForm (id : SourceId) (data : FormData) : Except FormFailure Source := do
  let appId ← appIdField py data
  let forge ← forgeField data
  let project ← projectField py data
  let apiBase ← https py (orElse (← text data "api_base" "") (DEFAULT_API_BASE forge)) "API base"
  let assetName ← assetField data
  let tagPrefix ← tagPrefixField data "v"
  let requireTagRefPrefix ← refPrefixField data "refs/tags/"
  let maxAssetBytes ← maxAssetBytesField py data (2 * 1024 * 1024 * 1024)
  let projectUrl ← projectUrl py forge apiBase project
  let critical ← checkbox py data "critical"
  let common : Source := {
    id, appId, forge, project, apiBase, projectUrl
    status := .DRAFT
    critical, assetName, tagPrefix, requireTagRefPrefix, maxAssetBytes
    channel := "stable"
    platform := "windows"
    arch := "amd64"
    workflowUri := none
    oidcIssuer := none
    repositoryId := none
    repositoryOwnerId := none
    runnerEnvironment := "github-hosted"
    builderId := none
    builderKeyid := none
    builderPublicKeyPem := none
    attestationAsset := "provenance.intoto.jsonl"
    lastError := none }
  match forge with
  | .GITHUB => githubFields py data common
  | .GITLAB => gitlabFields py data common

/-- The new value of a field, where it differs. -/
def changed {α : Type} [DecidableEq α] (existing proposed : α) : Option α :=
  if existing = proposed then none else some proposed

/-- `source_edit_from_form` -/
def sourceEditFromForm (data : FormData) (existing : Source) :
    Except FormFailure SourceEdit := do
  let assetName ← assetField data
  let tagPrefix ← tagPrefixField data existing.tagPrefix
  let requireTagRefPrefix ← refPrefixField data existing.requireTagRefPrefix
  let maxAssetBytes ← maxAssetBytesField py data existing.maxAssetBytes
  let critical ← checkbox py data "critical"
  let channel ← slug data "channel" existing.channel "Channel"
  let platform ← slug data "platform" existing.platform "Platform"
  let arch ← slug data "arch" existing.arch "Architecture"
  return {
    assetName := changed existing.assetName assetName
    tagPrefix := changed existing.tagPrefix tagPrefix
    requireTagRefPrefix := changed existing.requireTagRefPrefix requireTagRefPrefix
    maxAssetBytes := changed existing.maxAssetBytes maxAssetBytes
    critical := changed existing.critical critical
    channel := changed existing.channel channel
    platform := changed existing.platform platform
    arch := changed existing.arch arch }

end Forms

/-! ## What the checks let through -/

section Accepted

variable {py : Python} {data : FormData}

theorem head?_dropWhile {p : Char → Bool} {cs : List Char} {c : Char}
    (h : (cs.dropWhile p).head? = some c) : p c = false := by
  have hnot := List.head?_dropWhile_not p cs
  rwa [h] at hnot

theorem getLast?_strip (s : String) : (strip s).toList.getLast? ≠ some '\n' := by
  intro h
  rw [strip, String.toList_ofList, stripChars, List.getLast?_reverse] at h
  exact absurd (head?_dropWhile h) (by decide)

theorem getLast?_text {key default value : String} (h : text data key default = .ok value) :
    value.toList.getLast? ≠ some '\n' := by
  unfold text at h
  split at h
  · exact Except.ok.inj h ▸ getLast?_strip _
  · exact Except.ok.inj h ▸ getLast?_strip _
  · cases h

theorem require_eq_ok {value field kept : String} (h : require value field = .ok kept) :
    value = kept := by
  unfold require at h
  split at h
  · cases h
  · exact Except.ok.inj h

/-- The line feed that the pattern's `$` lets through has been stripped. -/
theorem appIdField_eq_ok {appId : String} (h : appIdField py data = .ok appId) :
    Core.appIdBody appId.toList = true := by
  simp only [appIdField, Fallible.bind_eq_ok] at h
  obtain ⟨typed, htext, kept, hrequire, h⟩ := h
  obtain rfl := require_eq_ok hrequire
  split at h
  next hmatch =>
    obtain rfl := Fallible.pure_eq_ok.mp h
    rwa [appIdMatches, Text.endsAnchored_of_no_newline (getLast?_text htext)] at hmatch
  next => simp at h

theorem assetField_eq_ok {assetName : String} (h : assetField data = .ok assetName) :
    assetMatches assetName = true := by
  simp only [assetField, Fallible.bind_eq_ok] at h
  obtain ⟨typed, -, kept, -, h⟩ := h
  by_cases hmatch : assetMatches kept = true
  · simp only [hmatch, Bool.not_true, Bool.false_eq_true, if_false] at h
    split at h
    · simp at h
    · split at h
      · cases h
      · exact Fallible.pure_eq_ok.mp h ▸ hmatch
  · simp [hmatch] at h

theorem tagPrefixField_eq_ok {default tagPrefix : String}
    (h : tagPrefixField data default = .ok tagPrefix) : tagPrefixMatches tagPrefix = true := by
  simp only [tagPrefixField, Fallible.bind_eq_ok] at h
  obtain ⟨typed, -, h⟩ := h
  split at h
  next hmatch => exact Fallible.pure_eq_ok.mp h ▸ hmatch
  next => simp at h

theorem slug_eq_ok {key default field value : String}
    (h : slug data key default field = .ok value) : slugMatches value = true := by
  simp only [slug, Fallible.bind_eq_ok] at h
  obtain ⟨typed, -, h⟩ := h
  split at h
  next hmatch => exact Fallible.pure_eq_ok.mp h ▸ hmatch
  next => simp at h

/-- What the forms promise of a source that was registered and edited. -/
structure WellFormed (source : Source) : Prop where
  appId : Core.appIdBody source.appId.toList = true
  asset : assetMatches source.assetName = true
  tagPrefix : tagPrefixMatches source.tagPrefix = true
  channel : slugMatches source.channel = true
  platform : slugMatches source.platform = true
  arch : slugMatches source.arch = true

theorem githubFields_eq_ok {common source : Source}
    (h : githubFields py data common = .ok source) :
    ∃ workflowUri oidcIssuer runnerEnvironment,
      source = { common with workflowUri, oidcIssuer, runnerEnvironment } := by
  simp only [githubFields, Fallible.bind_eq_ok] at h
  obtain ⟨submitted, -, workflowUri, -, h⟩ := h
  split at h
  · simp at h
  · simp only [Fallible.bind_eq_ok] at h
    obtain ⟨_, -, oidcIssuer, -, environment, -, h⟩ := h
    exact ⟨_, _, _, (Fallible.pure_eq_ok.mp h).symm⟩

theorem gitlabFields_eq_ok {common source : Source}
    (h : gitlabFields py data common = .ok source) :
    ∃ builderId builderKeyid builderPublicKeyPem attestationAsset,
      source = { common with builderId, builderKeyid, builderPublicKeyPem, attestationAsset } := by
  simp only [gitlabFields, Fallible.bind_eq_ok] at h
  obtain ⟨_, -, pem, -, h⟩ := h
  split at h
  · simp at h
  · simp only [Fallible.bind_eq_ok] at h
    obtain ⟨_, -, builderId, -, _, -, builderKeyid, -, asset, -, h⟩ := h
    exact ⟨_, _, _, _, (Fallible.pure_eq_ok.mp h).symm⟩

/-- The fields of the naming rules do not depend on the forge. -/
theorem sourceFromForm_wellFormed {id : SourceId} {source : Source}
    (h : sourceFromForm py id data = .ok source) : WellFormed source := by
  simp only [sourceFromForm, Fallible.bind_eq_ok] at h
  obtain ⟨appId, happ, forge, -, project, -, base, -, apiBase, -, assetName, hasset, tagPrefix,
    htag, refPrefix, -, maxAssetBytes, -, projectUrl, -, critical, -, h⟩ := h
  have happ := appIdField_eq_ok happ
  have hasset := assetField_eq_ok hasset
  have htag := tagPrefixField_eq_ok htag
  have hchannel : slugMatches "stable" = true := by decide
  have hplatform : slugMatches "windows" = true := by decide
  have harch : slugMatches "amd64" = true := by decide
  cases forge with
  | GITHUB =>
    obtain ⟨_, _, _, rfl⟩ := githubFields_eq_ok h
    exact ⟨happ, hasset, htag, hchannel, hplatform, harch⟩
  | GITLAB =>
    obtain ⟨_, _, _, _, rfl⟩ := gitlabFields_eq_ok h
    exact ⟨happ, hasset, htag, hchannel, hplatform, harch⟩

theorem changed_getD {α : Type} [DecidableEq α] {P : α → Prop} {existing proposed current : α}
    (hproposed : P proposed) (hcurrent : P current) :
    P ((changed existing proposed).getD current) := by
  unfold changed
  split
  · exact hcurrent
  · exact hproposed

/-- An edit keeps what the forms promise, also when the source has changed since the operator
opened the form. -/
theorem sourceEditFromForm_wellFormed {existing current : Source} {edit : SourceEdit}
    (h : sourceEditFromForm py data existing = .ok edit) (hcurrent : WellFormed current) :
    WellFormed (edit.apply current) := by
  simp only [sourceEditFromForm, Fallible.bind_eq_ok] at h
  obtain ⟨assetName, hasset, tagPrefix, htag, refPrefix, -, maxAssetBytes, -, critical, -,
    channel, hchannel, platform, hplatform, arch, harch, h⟩ := h
  obtain rfl := Fallible.pure_eq_ok.mp h
  exact {
    appId := hcurrent.appId
    asset := changed_getD (P := (assetMatches · = true)) (assetField_eq_ok hasset) hcurrent.asset
    tagPrefix := changed_getD (P := (tagPrefixMatches · = true)) (tagPrefixField_eq_ok htag)
      hcurrent.tagPrefix
    channel := changed_getD (P := (slugMatches · = true)) (slug_eq_ok hchannel) hcurrent.channel
    platform := changed_getD (P := (slugMatches · = true)) (slug_eq_ok hplatform)
      hcurrent.platform
    arch := changed_getD (P := (slugMatches · = true)) (slug_eq_ok harch) hcurrent.arch }

/-- A source as the store may hold it: registered through the form, then any number of accepted
edits, each against the row its form was opened on, between the writes of the workers. -/
inductive Accepted (py : Python) : Source → Prop
  | registered {id : SourceId} {data : FormData} {source : Source} :
    sourceFromForm py id data = .ok source → Accepted py source
  | edited {data : FormData} {existing current : Source} {edit : SourceEdit} :
    Accepted py existing → Accepted py current → existing.id = current.id →
      sourceEditFromForm py data existing = .ok edit → Accepted py (edit.apply current)
  | worked {source : Source} (status : Registry.SourceStatus)
      (repositoryId repositoryOwnerId lastError : Option String) :
    Accepted py source →
      Accepted py { source with status, repositoryId, repositoryOwnerId, lastError }

theorem Accepted.wellFormed {source : Source} (h : Accepted py source) : WellFormed source := by
  induction h with
  | registered h => exact sourceFromForm_wellFormed h
  | edited _ _ _ hedit _ ih => exact sourceEditFromForm_wellFormed hedit ih
  | worked status repositoryId repositoryOwnerId lastError _ ih =>
    exact ⟨ih.appId, ih.asset, ih.tagPrefix, ih.channel, ih.platform, ih.arch⟩

end Accepted

end DistPlatform.Admin
