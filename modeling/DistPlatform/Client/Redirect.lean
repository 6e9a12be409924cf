import DistPlatform.Client.Isolation

/-!
# What a pointer can lead to (`dist_client.update`)

The pointer's path is a Python string: its prefix is compared there, and the C boundary cuts
it at the first NUL before it is parsed and looked up. The version in a description is cut on
the way back. An offer is what it claims to be exactly where neither cut takes anything away.

## Main definitions

* `readPointer` — the part of a check that ends with the pointer's two strings.
* `SoundOffer` — an offer is the trusted description of its own path.
-/

namespace DistPlatform.Client

/-- `run` up to the parsed pointer; nothing where the channel has none. -/
def readPointer (ports : Ports) (channel : Channel)
    (target : TargetPath → Except VerifyError TargetInfo) :
    Except UpdateFailure (Option (String × String)) := do
  match ← lookupTarget target channel.pointerPath with
  | none => return none
  | some pointerInfo =>
    let pointer ← fetchVerified ports pointerInfo channel.pointerPath
    if MAX_POINTER_BYTES < pointer.length then
      throw (.UpdateError "channel pointer is implausibly large")
    return some (← parsePointer ports pointer)

/-- The offer's path lies in the channel and is a target path as it stands, and the offer's
info is what the trusted metadata says about this very path. -/
structure SoundOffer (verifier : TufVerifier) (systemTime : Int) (channel : Channel)
    (available : Available) : Prop where
  inChannel : Text.startsWith available.targetPath channel.pathPrefix = true
  described : ∃ parsed info, TargetPath.parse available.targetPath = .ok parsed ∧
    parsed.asStr = available.targetPath ∧ verifier.target systemTime parsed = .ok info ∧
    available.info = ⟨info.release.version, info.length, info.sha256, info.release.rolloutPct,
      info.release.mandatory⟩
  versions : available.info.version = available.version

section Offer

variable {ports : Ports} {installId : String} {channel : Channel}
  {target : TargetPath → Except VerifyError TargetInfo} {available : Available}

theorem readPointer_of_resolve
    (h : resolve ports installId channel target = .ok (some available)) :
    readPointer ports channel target = .ok (some (available.targetPath, available.version)) := by
  obtain ⟨seen, pointer, hfound, hpointer, hsize, hparse, -⟩ := resolve_eq_some_iff.mp h
  unfold readPointer
  rw [Fallible.bind_eq_ok]
  refine ⟨some seen, lookupTarget_eq_some.mpr hfound, ?_⟩
  simp only [Fallible.bind_eq_ok]
  refine ⟨pointer, hpointer, ?_⟩
  rw [if_neg (by omega), Fallible.bind_eq_ok]
  exact ⟨_, hparse, rfl⟩

/-! ## The two cuts -/

/-- `parse` refuses a NUL in any segment. -/
theorem nul_not_mem_of_parse {raw : String} {parsed : TargetPath}
    (h : TargetPath.parse raw = .ok parsed) : Utf8.NUL ∉ raw.toList := by
  intro hmem
  rw [← asStr_of_parse h] at hmem
  obtain ⟨segment, hsegment, hnul⟩ := Text.exists_piece_of_mem hmem
    (show Utf8.NUL ≠ '/' by decide)
  have hsafe := parsed.segmentsSafe segment hsegment
  simp only [unsafeSegment, Bool.or_eq_false_iff] at hsafe
  have hcontains : segment.contains (Char.ofNat 0) = true := by
    rw [List.contains_iff_mem]
    exact hnul
  rw [hcontains] at hsafe
  exact absurd hsafe.2 (by decide)

theorem soundOffer_iff {verifier : TufVerifier} {systemTime : Int}
    (h : resolve ports installId channel (verifier.target systemTime) = .ok (some available)) :
    SoundOffer verifier systemTime channel available ↔
      Utf8.NUL ∉ available.targetPath.toList ∧ ∀ parsed info,
        TargetPath.parse available.targetPath = .ok parsed →
          verifier.target systemTime parsed = .ok info → Utf8.NUL ∉ info.release.version.toList := by
  obtain ⟨hstarts, -, -, hbinding, hversion, -⟩ :=
    resolveRelease_eq_some.mp (resolve_eq_some h)
  obtain ⟨parsed, info, hparse, htarget, -, hseen⟩ := bindingTarget_eq_some.mp hbinding
  constructor
  · intro hsound
    obtain ⟨parsed', info', hparse', -, htarget', hinfo⟩ := hsound.described
    have hnul := nul_not_mem_of_parse hparse'
    refine ⟨hnul, fun parsed'' info'' hparse'' htarget'' => ?_⟩
    rw [cString_eq_self_iff.mpr hnul, hparse'', Except.ok.injEq] at hparse
    rw [hparse'', Except.ok.injEq] at hparse'
    subst hparse hparse'
    rw [htarget'', Except.ok.injEq] at htarget htarget'
    subst htarget htarget'
    exact seen_eq_iff.mp (hseen ▸ hinfo)
  · rintro ⟨hnul, hversions⟩
    rw [cString_eq_self_iff.mpr hnul] at hparse
    have hwhole := seen_eq_iff.mpr (hversions parsed info hparse htarget)
    exact ⟨hstarts, ⟨parsed, info, hparse, asStr_of_parse hparse, htarget, hseen.trans hwhole⟩,
      hversion⟩

end Offer

/-! ## A repository with one release -/

def viewerChannel : Channel := ⟨"viewer", "stable", "linux", "x64"⟩

/-- The document of the channel pointer, as bytes. -/
def pointerDocument (escapedPath : String) : Bytes :=
  ("\x7b\"target_path\":\"" ++ escapedPath ++ "\",\"version\":\"1.0\"\x7d").toList.map fun c =>
    UInt8.ofNat c.toNat

/-- A transport that serves a pointer to `path`; every digest is the same. -/
def pointingTo (path escapedPath : String) : Ports where
  fetch _ := .ok (pointerDocument escapedPath)
  loads raw :=
    if raw = pointerDocument escapedPath then
      .ok (.obj [("target_path", .str path), ("version", .str "1.0")])
    else .error "Expecting value"
  sha256 _ := List.replicate 32 7

/-- Trusted metadata that describes the pointer and the release. -/
def viewerShop (escapedPath : String) : Tuf.Database where
  trustedRoot := ⟨1, 100, true, [], ⟨1, []⟩, ⟨1, []⟩, ⟨1, []⟩, ⟨1, []⟩⟩
  trustedSnapshot := some ⟨1, 100, [(.targets, ⟨1, none, []⟩), (appRole "viewer", ⟨1, none, []⟩)]⟩
  trustedTargets := some ⟨1, 100, [
    (⟨viewerChannel.pointerPath⟩, ⟨UInt64.ofNat (pointerDocument escapedPath).length,
      [(.Sha256, List.replicate 32 7)], [("version", .str "1.0")]⟩),
    (⟨viewerPath.asStr⟩, viewerDescription)], none⟩
  trustedTimestamp := some ⟨1, 100, ⟨1, none, []⟩⟩
  trustedDelegations := []

/-- A library that has already accepted that metadata. -/
def shopUpdates (escapedPath : String) : Updates where
  root _ := .ok (viewerShop escapedPath)
  timestamp _ database _ := .ok database
  snapshot _ database _ := .ok database
  targets _ database _ := .ok database
  delegatedTargets _ database _ _ := .ok database

def viewerPointer : TargetPath := ⟨viewerChannel.pointerPath, by decide, by decide⟩

def viewerOffer (path : String) : Available := ⟨"1.0", path, viewerInfo.seen⟩

theorem acceptMetadata_shop (path escapedPath : String) :
    acceptMetadata (pointingTo path escapedPath) (shopUpdates escapedPath) viewerChannel [] (.Fixed 0)
      0 = .ok (some ⟨viewerShop escapedPath, .Fixed 0⟩) := by
  rfl

theorem resolve_shop {path escapedPath : String}
    (hpointer : TufVerifier.target ⟨viewerShop escapedPath, .Fixed 0⟩ 0 viewerPointer = .ok
        ⟨UInt64.ofNat (pointerDocument escapedPath).length, List.replicate 32 7,
          ⟨"1.0", 100, false, none, none, none⟩⟩)
    (hrelease : TufVerifier.target ⟨viewerShop escapedPath, .Fixed 0⟩ 0 viewerPath = .ok viewerInfo)
    (hstarts : Text.startsWith path viewerChannel.pathPrefix = true)
    (hparse : TargetPath.parse (cString path) = .ok viewerPath)
    (hsize : (pointerDocument escapedPath).length ≤ MAX_POINTER_BYTES) :
    resolve (pointingTo path escapedPath) "install" viewerChannel
      (TufVerifier.target ⟨viewerShop escapedPath, .Fixed 0⟩ 0) = .ok (some (viewerOffer path)) := by
  have hversion : (Utf8.bytes "1.0").length ≤ DIST_VERSION_CAPACITY - 1 := by
    rw [Utf8.bytes_eq]
    decide
  have hparsed : TargetPath.parse (cString viewerChannel.pointerPath) = .ok viewerPointer := by
    decide +kernel
  have hfound := bindingTarget_eq_some.mpr ⟨_, _, hparsed, hpointer, hversion, rfl⟩
  have hdescribed := bindingTarget_eq_some.mpr ⟨_, _, hparse, hrelease, hversion, rfl⟩
  refine resolve_eq_some_iff.mpr ⟨_, pointerDocument escapedPath, hfound, ?_, hsize, ?_, ?_⟩
  · have hlength : (UInt64.ofNat (pointerDocument escapedPath).length).toNat =
        (pointerDocument escapedPath).length := by
      rw [UInt64.toNat_ofNat']
      simp only [MAX_POINTER_BYTES] at hsize
      omega
    simp [fetchVerified, fetch, pointingTo, bindingVerifyPayload, verifyPayload, TargetInfo.seen,
      hlength, Except.mapError, bind, Except.bind, pure, Except.pure]
  · simp [parsePointer, pointingTo, viewerOffer, Json.isObj, Json.getStr?, Json.get?, Json.str?,
      List.lookup_cons]
  · refine resolveRelease_eq_some.mpr ⟨hstarts, rfl, rfl, hdescribed, ?_, rfl⟩
    change cString "1.0" = "1.0"
    decide +kernel

theorem run_shop {path escapedPath : String}
    (hresolve : resolve (pointingTo path escapedPath) "install" viewerChannel
      (TufVerifier.target ⟨viewerShop escapedPath, .Fixed 0⟩ 0) = .ok (some (viewerOffer path))) :
    run (pointingTo path escapedPath) (shopUpdates escapedPath) "install" viewerChannel []
      (.Fixed 0) 0 = .ok (some (viewerOffer path)) := by
  rw [run_of_accepted (acceptMetadata_shop path escapedPath)]
  exact hresolve

theorem run_viewer :
    run (pointingTo viewerPath.asStr viewerPath.asStr) (shopUpdates viewerPath.asStr) "install"
      viewerChannel [] (.Fixed 0) 0 = .ok (some (viewerOffer viewerPath.asStr)) :=
  run_shop (resolve_shop (by decide +kernel) (by decide +kernel) (by decide +kernel)
    (by decide +kernel) (by decide +kernel))

/-- The release's path with a NUL and more behind it. -/
def paddedPath : String := viewerPath.asStr ++ String.singleton Utf8.NUL ++ "junk"

def paddedEscape : String := viewerPath.asStr ++ "\\u0000junk"

theorem run_padded :
    run (pointingTo paddedPath paddedEscape) (shopUpdates paddedEscape) "install" viewerChannel []
      (.Fixed 0) 0 = .ok (some (viewerOffer paddedPath)) :=
  run_shop (resolve_shop (by decide +kernel) (by decide +kernel) (by decide +kernel)
    (by decide +kernel) (by decide +kernel))

/-! ## A check that offers a release -/

/-- An offer is sound exactly where the pointer's path holds no NUL and the trusted version of
the release it names holds none. -/
theorem offer_sound_iff {ports : Ports} {updates : Updates} {installId : String}
    {channel : Channel} {root : Bytes} {clock : Clock} {systemTime : Int}
    {verifier : TufVerifier} {available : Available}
    (haccept : acceptMetadata ports updates channel root clock systemTime = .ok (some verifier))
    (hrun : run ports updates installId channel root clock systemTime = .ok (some available)) :
    ∃ targetPath version,
      readPointer ports channel (verifier.target systemTime) = .ok (some (targetPath, version)) ∧
        (SoundOffer verifier systemTime channel available ↔
          Utf8.NUL ∉ targetPath.toList ∧ ∀ parsed info,
            TargetPath.parse targetPath = .ok parsed →
              verifier.target systemTime parsed = .ok info →
                Utf8.NUL ∉ info.release.version.toList) := by
  rw [run_of_accepted haccept] at hrun
  exact ⟨_, _, readPointer_of_resolve hrun, soundOffer_iff hrun⟩

theorem offer_sound_viewer :
    ∃ targetPath version,
      readPointer (pointingTo viewerPath.asStr viewerPath.asStr) viewerChannel
          (TufVerifier.target ⟨viewerShop viewerPath.asStr, .Fixed 0⟩ 0) =
        .ok (some (targetPath, version)) ∧
      (SoundOffer ⟨viewerShop viewerPath.asStr, .Fixed 0⟩ 0 viewerChannel
          (viewerOffer viewerPath.asStr) ↔
        Utf8.NUL ∉ targetPath.toList ∧ ∀ parsed info,
          TargetPath.parse targetPath = .ok parsed →
            TufVerifier.target ⟨viewerShop viewerPath.asStr, .Fixed 0⟩ 0 parsed = .ok info →
              Utf8.NUL ∉ info.release.version.toList) :=
  offer_sound_iff (acceptMetadata_shop _ _) run_viewer

/-- A pointer that names the release's path with a NUL and more behind it: the check offers
that text, which is no target path, with the description of the release. -/
theorem padded_path_offered :
    run (pointingTo paddedPath paddedEscape) (shopUpdates paddedEscape) "install" viewerChannel []
        (.Fixed 0) 0 = .ok (some (viewerOffer paddedPath)) ∧
      ¬ SoundOffer ⟨viewerShop paddedEscape, .Fixed 0⟩ 0 viewerChannel (viewerOffer paddedPath) := by
  refine ⟨run_padded, fun hsound => ?_⟩
  obtain ⟨parsed, info, hparse, -⟩ := hsound.described
  exact absurd (nul_not_mem_of_parse hparse) (by decide +kernel)

end DistPlatform.Client
