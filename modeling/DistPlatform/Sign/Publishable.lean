import DistPlatform.Admin.Forms
import DistPlatform.Sign.Worker

/-!
# From a form to a signed name (`dist_admin.forms`, `dist_ingest.forge`, `dist_sign.worker`)

The forms, the version pattern and the asset template each describe an alphabet that is meant
to nest in the one the naming rules know. Where it does not, an approved release fails in the
signer.

## Main definitions

* `NameLike` — names over the alphabet of a segment and a few more characters.
* `Publishable` — the names the signer needs for a release can be built.
-/

namespace DistPlatform.Sign

open Admin (Accepted FormData Python assetRest slugMatches)
open DistPlatform.Core (ChannelKey ReleaseInfo TargetKey segmentBody segmentFirst segmentMatches segmentRest)
open Ingest (ForgeAsset ForgeRelease Outcome PublishPayload handOffPayload outcomeRecord
  versionFromTag)
open Registry (JobKind Source)

/-! ## Alphabets -/

/-- A name that begins with a letter or a digit and goes on over `[A-Za-z0-9._-]` and `extra`. -/
def NameLike (extra s : List Char) : Prop :=
  ∃ c cs, s = c :: cs ∧ segmentFirst c = true ∧ ∀ d ∈ cs, segmentRest d = true ∨ d ∈ extra

/-- Such a name is a segment unless one of the added characters stands in it. -/
theorem segmentMatches_iff {extra : List Char} {s : String} (h : NameLike extra s.toList)
    (hextra : ∀ c ∈ extra, segmentRest c = false ∧ c ≠ '\n') :
    segmentMatches s = true ↔ ∀ c ∈ extra, c ∉ s.toList := by
  constructor
  · intro hsegment c hc hmem
    obtain hrest | hline := Core.segmentMatches_chars hsegment c hmem
    · rw [(hextra c hc).1] at hrest
      cases hrest
    · exact (hextra c hc).2 hline
  · intro hplain
    obtain ⟨c, cs, hs, hfirst, hrest⟩ := h
    refine Text.endsAnchored_iff.mpr (.inl ?_)
    rw [hs] at hplain ⊢
    simp only [segmentBody, hfirst, Bool.true_and, List.all_eq_true]
    intro d hd
    exact (hrest d hd).resolve_right fun he => hplain d he (List.mem_cons_of_mem _ hd)

theorem segmentFirst_of_appIdFirst {c : Char} (h : Core.appIdFirst c = true) :
    segmentFirst c = true := by
  simp only [Core.appIdFirst, segmentFirst, Bool.or_eq_true] at h ⊢
  exact h.elim (fun h => .inl (.inr h)) .inr

theorem segmentRest_of_appIdRest {c : Char} (h : Core.appIdRest c = true) :
    segmentRest c = true := by
  simp only [Core.appIdRest, Bool.or_eq_true] at h
  rcases h with h | h
  · simp [segmentRest, segmentFirst_of_appIdFirst h]
  · simp [segmentRest, h]

theorem segmentMatches_slug {value : String} (h : slugMatches value = true) :
    segmentMatches value = true := by
  refine Text.endsAnchored_iff.mpr (.inl ?_)
  unfold slugMatches at h
  split at h
  · cases h
  next c cs hcs =>
    simp only [Bool.and_eq_true, List.all_eq_true] at h
    rw [hcs]
    simp only [segmentBody, Bool.and_eq_true, List.all_eq_true]
    exact ⟨segmentFirst_of_appIdFirst h.1.1, fun d hd => segmentRest_of_appIdRest (h.1.2 d hd)⟩

theorem segmentMatches_appId {appId : String} (h : Core.appIdBody appId.toList = true) :
    segmentMatches appId = true := by
  refine Text.endsAnchored_iff.mpr (.inl ?_)
  cases hcs : appId.toList with
  | nil => simp [hcs, Core.appIdBody] at h
  | cons c cs =>
    rw [hcs] at h
    simp only [Core.appIdBody, Bool.and_eq_true, List.all_eq_true] at h
    simp only [segmentBody, Bool.and_eq_true, List.all_eq_true]
    exact ⟨segmentFirst_of_appIdFirst h.1.1.1,
      fun d hd => segmentRest_of_appIdRest (h.1.1.2 d hd)⟩

/-! ## Versions and assets -/

theorem segmentRest_of_isSuffixChar {c : Char} (h : Ingest.isSuffixChar c = true) :
    segmentRest c = true := by
  simp only [Ingest.isSuffixChar, Ingest.isDigit, Bool.or_eq_true] at h
  simp only [segmentRest, segmentFirst, Bool.or_eq_true]
  tauto

theorem segmentFirst_of_isDigit {c : Char} (h : Ingest.isDigit c = true) :
    segmentFirst c = true := by
  simp only [Ingest.isDigit] at h
  simp only [segmentFirst, Bool.or_eq_true]
  exact .inr h

/-- Dotted numbers begin with a digit. -/
theorem nameLike_of_isDotted {cs : List Char} (h : Ingest.isDotted cs = true) :
    NameLike [] cs := by
  have hpiece : ∀ piece ∈ cs.splitOn '.', piece ≠ [] ∧ ∀ c ∈ piece, Ingest.isDigit c = true := by
    simpa [Ingest.isDotted] using h
  have hchars : ∀ c ∈ cs, Ingest.isDigit c = true ∨ c = '.' := by
    intro c hc
    by_cases hdot : c = '.'
    · exact .inr hdot
    · obtain ⟨piece, hmem, hcp⟩ := Text.exists_piece_of_mem hc hdot
      exact .inl ((hpiece piece hmem).2 c hcp)
  have hwide : ∀ c ∈ cs, segmentRest c = true := by
    intro c hc
    obtain hdigit | rfl := hchars c hc
    · exact segmentRest_of_isSuffixChar (by simp [Ingest.isSuffixChar, hdigit])
    · decide
  cases cs with
  | nil => exact absurd rfl (hpiece [] (by simp)).1
  | cons c cs =>
    refine ⟨c, cs, rfl, ?_, fun d hd => .inl (hwide d (List.mem_cons_of_mem _ hd))⟩
    obtain hdigit | rfl := hchars c (by simp)
    · exact segmentFirst_of_isDigit hdigit
    · have hempty : [] ∈ ('.' :: cs).splitOn '.' := by
        rw [show '.' :: cs = [] ++ '.' :: cs from rfl,
          List.splitOn_append_cons_self_of_not_mem (by simp)]
        simp
      exact absurd rfl (hpiece [] hempty).1

theorem nameLike_of_versionMatches {version : String}
    (h : Ingest.versionMatches version = true) : NameLike ['+'] version.toList := by
  simp only [Ingest.versionMatches, Bool.and_eq_true] at h
  obtain ⟨hdotted, hsuffix⟩ := h
  obtain ⟨c, cs, hcs, hfirst, hrest⟩ := nameLike_of_isDotted hdotted
  have hwhole := List.takeWhile_append_dropWhile (p := fun c => c != '-' && c != '+')
    (l := version.toList)
  rw [hcs] at hwhole
  refine ⟨c, _, hwhole.symm, hfirst, ?_⟩
  intro d hd
  rcases List.mem_append.mp hd with hd | hd
  · exact .inl ((hrest d hd).resolve_right List.not_mem_nil)
  · split at hsuffix
    next hnil => simp [hnil] at hd
    next e suffix hdrop =>
      simp only [Bool.and_eq_true, List.all_eq_true] at hsuffix
      rw [hdrop] at hd
      rcases List.mem_cons.mp hd with rfl | hd
      · have hmark := Admin.head?_dropWhile (congrArg List.head? hdrop)
        simp only [Bool.and_eq_false_iff, bne_eq_false_iff_eq] at hmark
        rcases hmark with rfl | rfl
        · exact .inl (by decide)
        · exact .inr (by simp)
      · exact .inl (segmentRest_of_isSuffixChar (hsuffix.2 d hd))

/-- Replacing brings in characters of the new text only. -/
theorem mem_replaceFrom {old new : List Char} {skip : Nat} {cs : List Char} {c : Char}
    (h : c ∈ Ingest.replaceFrom old new skip cs) : c ∈ new ∨ c ∈ cs := by
  induction cs generalizing skip with
  | nil => cases skip <;> simp [Ingest.replaceFrom] at h
  | cons d cs ih =>
    cases skip with
    | succ skip => exact (ih h).imp_right (List.mem_cons_of_mem _)
    | zero =>
      rw [Ingest.replaceFrom] at h
      split at h
      · rcases List.mem_append.mp h with h | h
        · exact .inl h
        · exact (ih h).imp_right (List.mem_cons_of_mem _)
      · rcases List.mem_cons.mp h with rfl | h
        · exact .inr (by simp)
        · exact (ih h).imp_right (List.mem_cons_of_mem _)

/-- A resolved template begins as the template does, which is not with a placeholder. -/
theorem nameLike_resolveAssetName {release : ForgeRelease} {template : String}
    (hversion : NameLike ['+'] release.version.toList)
    (h : Admin.assetMatches template = true) :
    NameLike ['+', '\x7b', '\x7d'] (release.resolveAssetName template).toList := by
  unfold Admin.assetMatches at h
  split at h
  · cases h
  next c cs hcs =>
    simp only [Bool.and_eq_true, List.all_eq_true] at h
    have hplain : Ingest.VERSION_PLACEHOLDER.toList.isPrefixOf (c :: cs) = false := by
      have hc : c ≠ '\x7b' := by
        rintro rfl
        exact absurd h.1.1 (by decide)
      simp [Ingest.VERSION_PLACEHOLDER, List.isPrefixOf, hc.symm]
    obtain ⟨d, ds, hds, hfirst, hrest⟩ := hversion
    refine ⟨c, Ingest.replaceFrom Ingest.VERSION_PLACEHOLDER.toList release.version.toList 0 cs,
      ?_, h.1.1, ?_⟩
    · simp [ForgeRelease.resolveAssetName, hcs, Ingest.replaceFrom, hplain]
    · intro e he
      rcases mem_replaceFrom he with he | he
      · rw [hds] at he
        rcases List.mem_cons.mp he with rfl | he
        · exact .inl (by simp [segmentRest, hfirst])
        · exact (hrest e he).imp_right fun hplus => by simp_all
      · have hwide := h.1.2 e he
        simp only [assetRest, Bool.or_eq_true, beq_iff_eq] at hwide
        simpa [or_assoc] using hwide

/-! ## What the signer builds -/

/-- The names `do_publish` builds from a source and the payload of its job. -/
def Publishable (source : Source) (payload : PublishPayload) : Prop :=
  ∃ key, TargetKey.make source.appId source.channel source.platform source.arch payload.version
      payload.filename = .ok key ∧
    (∃ info, ReleaseInfo.make key.version none none none false 100 = .ok info) ∧
    ∃ channel, ChannelKey.make key.appId key.channel key.platform key.arch = .ok channel

/-- The key decides: what else is built repeats its checks. -/
theorem publishable_iff_key {source : Source} {payload : PublishPayload} :
    Publishable source payload ↔ source.channel ∈ Core.CHANNELS ∧
      ∀ v ∈ [source.appId, source.platform, source.arch, payload.version, payload.filename],
        segmentMatches v = true := by
  rw [← Core.targetKey_make_isOk]
  constructor
  · rintro ⟨key, hkey, -⟩
    exact ⟨key, hkey⟩
  · rintro ⟨key, hkey⟩
    obtain ⟨info, hinfo, -⟩ := Core.releaseInfo_make key
    exact ⟨key, hkey, ⟨info, hinfo⟩, key.channelKey, Core.channelKey_make key⟩

/-- The configured prefix holds no plus sign, so it is in the tag where it is in the version. -/
theorem plus_mem_tag_iff {tag tagPrefix : String} (h : Admin.tagPrefixMatches tagPrefix = true) :
    '+' ∈ (Ingest.stripPrefix tag tagPrefix).toList ↔ '+' ∈ tag.toList := by
  have hplain : '+' ∉ tagPrefix.toList := by
    simp only [Admin.tagPrefixMatches, Bool.and_eq_true, List.all_eq_true] at h
    intro hmem
    exact absurd (h.1 _ hmem) (by decide)
  unfold Ingest.stripPrefix
  split
  next hstarts =>
    obtain ⟨rest, hrest⟩ := Text.startsWith_iff.mp hstarts.2
    rw [String.toList_ofList, ← hrest, List.drop_left, List.mem_append]
    exact ⟨.inr, fun hmem => hmem.resolve_left hplain⟩
  next => exact Iff.rfl

/-! ## A registered source -/

/-- Python's library, as far as the forms below use it. -/
def plainPython : Python where
  urlsplit url :=
    if Text.startsWith url "https://" then
      let rest := url.toList.drop 8
      .ok ⟨"https", some (String.ofList (rest.takeWhile (· ≠ '/'))),
        String.ofList (rest.dropWhile (· ≠ '/')), "", ""⟩
    else .ok ⟨"", none, url, "", ""⟩
  lower text := String.ofList (text.toList.map Char.toLower)
  int := String.toInt?
  loadPemPublicKey _ := .ok ()

def editorForm : FormData :=
  [("app_id", .text "editor"), ("forge", .text "github"), ("project", .text "acme/editor"),
    ("asset_name", .text "editor-\x7bversion\x7d.zip")]

/-- What the form makes of `editorForm`. -/
def editorSource : Source where
  id := 0
  appId := "editor"
  forge := .GITHUB
  project := "acme/editor"
  apiBase := "https://api.github.com"
  projectUrl := "https://github.com/acme/editor"
  status := .DRAFT
  critical := false
  assetName := "editor-\x7bversion\x7d.zip"
  tagPrefix := "v"
  requireTagRefPrefix := "refs/tags/"
  maxAssetBytes := 2 * 1024 * 1024 * 1024
  channel := "stable"
  platform := "windows"
  arch := "amd64"
  workflowUri := some "https://github.com/acme/editor/.github/workflows/release.yml"
  oidcIssuer := some "https://token.actions.githubusercontent.com"
  repositoryId := none
  repositoryOwnerId := none
  runnerEnvironment := "github-hosted"
  builderId := none
  builderKeyid := none
  builderPublicKeyPem := none
  attestationAsset := "provenance.intoto.jsonl"
  lastError := none

theorem editorSource_accepted : Accepted plainPython editorSource := by
  have hform : Admin.sourceFromForm plainPython 0 editorForm = .ok editorSource := by
    decide +kernel
  exact .registered hform

/-- The same source on a channel that the edit form takes. -/
def nightlySource : Source := { editorSource with channel := "nightly" }

theorem nightlySource_accepted : Accepted plainPython nightlySource := by
  have hedit : Admin.sourceEditFromForm plainPython
      [("asset_name", .text "editor-\x7bversion\x7d.zip"), ("channel", .text "nightly")]
      editorSource = .ok { channel := some "nightly" } := by decide +kernel
  exact .edited editorSource_accepted editorSource_accepted rfl hedit

def editorAsset (version : String) : ForgeAsset :=
  ⟨"editor-" ++ version ++ ".zip", 1000, "https://github.com/acme/editor/releases/1", none⟩

def editorRelease (version : String) : ForgeRelease :=
  ⟨"v" ++ version, version, [editorAsset version]⟩

def editorPayload (version : String) : PublishPayload :=
  ⟨"d1", version, "editor-" ++ version ++ ".zip", "v" ++ version⟩

def promoted : Outcome := { decision := .PROMOTE, reason := .passed [] "" "", admitted := some ⟨"d1", 1000⟩ }

/-! ## What is accepted and what can be published -/

/-- What was registered, edited and handed off can be signed exactly where the channel is one
the platform knows, the tag has no build suffix, and the asset's name has neither a plus sign
nor a brace. -/
theorem publishable_iff {py : Python} {polled published : Source} {release : ForgeRelease}
    {asset : ForgeAsset} {kind : JobKind} {written : Nat} {outcome : Outcome}
    {payload : PublishPayload} (hpolled : Accepted py polled) (hpublished : Accepted py published)
    (hversion : versionFromTag release.tag polled.tagPrefix = .ok release.version)
    (hasset : release.asset polled.assetName = some asset)
    (hpayload : handOffPayload kind (.polled (outcomeRecord ⟨release, asset, written, outcome⟩)) =
      some payload) :
    Publishable published payload ↔ published.channel ∈ Core.CHANNELS ∧
      '+' ∉ release.tag.toList ∧ ∀ c ∈ ['+', '\x7b', '\x7d'], c ∉ asset.name.toList := by
  have hfields : payload.version = release.version ∧ payload.filename = asset.name := by
    obtain ⟨-, record, hrecord, -, -, hv, hf, -⟩ := Ingest.handOffPayload_eq_some hpayload
    obtain rfl := Ingest.JobResult.polled.inj hrecord
    exact ⟨hv.symm, hf.symm⟩
  have hmatches : Ingest.versionMatches release.version = true ∧
      release.version = Ingest.stripPrefix release.tag polled.tagPrefix := by
    unfold versionFromTag at hversion
    split at hversion
    next hmatch =>
      obtain hstripped := Except.ok.inj hversion
      exact ⟨hstripped ▸ hmatch, hstripped.symm⟩
    next => cases hversion
  have hlike := nameLike_of_versionMatches hmatches.1
  have hname : NameLike ['+', '\x7b', '\x7d'] asset.name.toList := by
    rw [ForgeRelease.name_of_asset hasset]
    exact nameLike_resolveAssetName hlike hpolled.wellFormed.asset
  have hwell := hpublished.wellFormed
  rw [publishable_iff_key, hfields.1, hfields.2]
  simp only [List.forall_mem_cons, segmentMatches_appId hwell.appId,
    segmentMatches_slug hwell.platform, segmentMatches_slug hwell.arch,
    segmentMatches_iff hname (by decide), segmentMatches_iff hlike (by decide)]
  rw [hmatches.2, plus_mem_tag_iff hpolled.wellFormed.tagPrefix]
  simp

theorem publishable_editor : Publishable editorSource (editorPayload "1.0") := by
  have hversion : versionFromTag (editorRelease "1.0").tag editorSource.tagPrefix =
      .ok (editorRelease "1.0").version := by decide +kernel
  have hasset : (editorRelease "1.0").asset editorSource.assetName = some (editorAsset "1.0") := by
    decide +kernel
  have hpayload : handOffPayload .POLL (.polled (outcomeRecord
      ⟨editorRelease "1.0", editorAsset "1.0", 1000, promoted⟩)) = some (editorPayload "1.0") := by
    decide +kernel
  exact (publishable_iff editorSource_accepted editorSource_accepted hversion hasset
    hpayload).mpr (by decide +kernel)

/-- The version pattern takes a build suffix that no path segment holds, and the edit form a channel
the platform does not have: both releases are approved and fail in the signer. A database that was
created with the check on its channel column refuses the second source. -/
theorem accepted_not_publishable :
    Accepted plainPython editorSource ∧ versionFromTag "v1.0+5" "v" = .ok "1.0+5" ∧
      (editorRelease "1.0+5").asset editorSource.assetName = some (editorAsset "1.0+5") ∧
      ¬ Publishable editorSource (editorPayload "1.0+5") ∧
      Accepted plainPython nightlySource ∧ ¬ Publishable nightlySource (editorPayload "1.0") := by
  refine ⟨editorSource_accepted, by decide +kernel, by decide +kernel, ?_, nightlySource_accepted,
    ?_⟩
  · rw [publishable_iff_key]
    decide +kernel
  · rw [publishable_iff_key]
    decide +kernel

end DistPlatform.Sign
