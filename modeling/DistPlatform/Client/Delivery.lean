import DistPlatform.Client.Accepting
import DistPlatform.Client.Redirect
import DistPlatform.Client.ReleaseInfo
import DistPlatform.Client.Resolution
import DistPlatform.Client.Rollout
import DistPlatform.Core.Retry

/-!
# From a publisher to an installation

A release and the pointer that makes it current cross four representations: the server's keys, the
signed metadata, the verifier's description, and what the binding hands out. This module follows
them through, for every history of one application's releases.

## Main definitions

* `Agreeing` — what both sides compute alike.
* `Deliverable` — a call whose names and sizes every boundary carries.
* `current`, `offered` — the release that was made current last, and what a check answers.
* `Delivering` — what a check and the instances of an application have to do with each other.
-/

namespace DistPlatform.Client

open DistPlatform Runs
open DistPlatform.Tuf (Interchange KeyId MetadataPath RootMetadata TargetsMetadata Time Database)
open DistPlatform.Core (Serving Seen TargetKey ChannelKey CurrentRelease listedAt)
open History

/-! ## Digests in hexadecimal -/

theorem hexDigit_digitChar : ∀ n < 16, Tuf.hexDigit (Nat.digitChar n) = some n := by decide

/-- The client reads back the digest that the server wrote. -/
theorem decodeHex_hex (digest : Bytes) : Tuf.decodeHex (hex digest).toList = some digest := by
  rw [hex, String.toList_ofList]
  induction digest with
  | nil => rfl
  | cons b digest ih =>
    have hhigh : b.toNat / 16 < 16 := by
      have := b.toNat_lt
      omega
    have hlow : b.toNat % 16 < 16 := Nat.mod_lt _ (by decide)
    have hbyte : UInt8.ofNat (16 * (b.toNat / 16) + b.toNat % 16) = b := by
      rw [Nat.div_add_mod]
      exact UInt8.ofNat_toNat
    simp only [List.flatMap_cons, List.cons_append, List.nil_append, Tuf.decodeHex,
      hexDigit_digitChar _ hhigh, hexDigit_digitChar _ hlow, ih, Option.bind_eq_bind,
      Option.bind_some, hbyte]
    rfl

/-- Both sides put the digest in front of the file's name. -/
theorem storedTargetPath_eq (path digest : String) :
    storedTargetPath path digest = Core.payloadPath path digest := by
  simp only [storedTargetPath, Core.payloadPath, Core.dirname, Core.basename, List.append_assoc]

/-! ## Both sides -/

/-- What the server takes from elsewhere is what the client takes: SHA-256 and the length in
bytes. -/
structure Agreeing (digest : Core.Digest) (out : Core.Outside Bytes) (ports : Ports) : Prop where
  sum : ports.sha256 = digest.sum
  sha256 : ∀ payload, out.sha256 payload = hex (digest.sum payload)
  length : ∀ payload : Bytes, out.length payload = payload.length

/-- The client's decoder reads the pointers that the calls have written. -/
def ReadsPointers (out : Core.Outside Bytes) (ports : Ports) (calls : List (Core.Call Bytes)) :
    Prop :=
  ∀ key pointer, .setCurrent key ∈ calls → CurrentRelease.make key.path key.version = .ok pointer →
    ports.loads (out.dumps pointer.toJson) = .ok pointer.toJson

/-- A call whose names and sizes every boundary carries: no field ends in a line feed, a payload
has a length in 64 bits, and what is made current has room in the struct and in the pointer. -/
def Deliverable (out : Core.Outside Bytes) : Core.Call Bytes → Prop
  | .addRelease key payload _ =>
    (∀ x ∈ [key.appId, key.platform, key.arch, key.version, key.filename], '\n' ∉ x.toList) ∧
      payload.length < Tuf.U64_END
  | .setCurrent key =>
    (∀ x ∈ [key.appId, key.platform, key.arch], '\n' ∉ x.toList) ∧
      (Utf8.bytes key.version).length ≤ DIST_VERSION_CAPACITY - 1 ∧
      ∀ pointer, CurrentRelease.make key.path key.version = .ok pointer →
        (out.dumps pointer.toJson).length ≤ MAX_POINTER_BYTES
  | _ => True

/-- The release that the call makes current for the channel. -/
def madeCurrent (channel : ChannelKey) : Core.Call Bytes → Option TargetKey
  | .setCurrent key => if key.channelKey.pointerPath = channel.pointerPath then some key else none
  | _ => none

/-- The release that was made current last. -/
def current (channel : ChannelKey) : List (Core.Call Bytes) → Option TargetKey :=
  latest (madeCurrent channel)

/-- A release as the binding hands it out. -/
def released (digest : Core.Digest) (payload : Bytes) (info : Core.ReleaseInfo) : PyTargetInfo :=
  ⟨info.version, UInt64.ofNat payload.length, digest.sum payload,
    UInt32.ofNat info.rolloutPct.toNat, info.mandatory⟩

/-- What a check of the channel answers after the calls. -/
def offered (digest : Core.Digest) (out : Core.Outside Bytes) (installId : String)
    (channel : ChannelKey) (calls : List (Core.Call Bytes)) : Option Available := do
  let key ← current channel calls
  let (payload, info) ← listedAt out key.path calls
  match Core.inRollout digest installId channel.appId info.rolloutPct with
  | .ok true => some ⟨key.version, key.path, released digest payload info⟩
  | _ => none

/-! ## What the calls have listed -/

section Calls

variable {out : Core.Outside Bytes} {appId role path : String} {calls : List (Core.Call Bytes)}
  {payload : Bytes} {info : Core.ReleaseInfo} {channel : ChannelKey} {key : TargetKey}

/-- Under the channel's pointer path stands the pointer to the current release. -/
theorem listedAt_pointerPath
    (h : Justified (fun call older => call.Checked out role older) calls) :
    listedAt out channel.pointerPath calls = (current channel calls).bind fun key =>
      (CurrentRelease.make key.path key.version).toOption.map fun pointer =>
        (out.dumps pointer.toJson, Core.pointerInfo key) := by
  induction calls with
  | nil => rfl
  | cons call calls ih =>
    have ih := ih h.2
    cases call with
    | initialise | addApp => exact absurd h.1 id
    | addRelease key payload info =>
      have hne := (key.path_ne_pointerPath channel).symm
      rw [Core.listedAt_cons (show Core.Call.listed out (.addRelease key payload info) =
        some (key.path, payload, info) from rfl), if_neg hne, ih]
      rfl
    | setCurrent key =>
      obtain ⟨-, ⟨pointer, hpointer⟩, -⟩ := h.1
      have hlisted : Core.Call.listed out (.setCurrent key) =
          some (key.channelKey.pointerPath, out.dumps pointer.toJson, Core.pointerInfo key) := by
        simp [Core.Call.listed, hpointer, Except.toOption]
      rw [Core.listedAt_cons hlisted]
      split
      next hsame =>
        have hnow : madeCurrent channel (.setCurrent key) = some key := if_pos hsame.symm
        rw [current, latest_cons_of_some hnow, Option.bind_some, hpointer]
        rfl
      next hother =>
        have hnot : madeCurrent channel (.setCurrent key) = none := if_neg (Ne.symm hother)
        rw [current, latest_cons_of_none hnot]
        exact ih

/-- The current release has been published, as a call of its own said. -/
theorem current_published (h : Justified (fun call older => call.Checked out role older) calls)
    (hcurrent : current channel calls = some key) :
    .setCurrent key ∈ calls ∧ key.channelKey.pointerPath = channel.pointerPath ∧
      (∃ pointer, CurrentRelease.make key.path key.version = .ok pointer) ∧
      ∃ key' payload info, .addRelease key' payload info ∈ calls ∧ key'.path = key.path ∧
        info.version = key.version ∧ listedAt out key.path calls = some (payload, info) := by
  obtain ⟨call, hmem, hsaid⟩ := exists_of_latest hcurrent
  cases call with
  | initialise | addApp | addRelease => cases hsaid
  | setCurrent key' =>
    simp only [madeCurrent] at hsaid
    split at hsaid
    next hpath =>
      obtain rfl := Option.some.inj hsaid
      obtain ⟨_, _, -, -, hpointer, -⟩ := Core.checked_of_mem h hmem
      obtain ⟨release, payload, info, hrelease, hpath', -, hversion, hlast⟩ :=
        Core.released_of_setCurrent h hmem
      exact ⟨hmem, hpath, hpointer, release, payload, info, hrelease, hpath', hversion, hlast⟩
    · cases hsaid

end Calls

/-! ## What a loaded verifier answers -/

section Lookups

variable {digest : Core.Digest} {out : Core.Outside Bytes} {ports : Ports}
  {appId role path : String}
  {listing : Table String Core.TargetFile} {now : Time} {db : Database} {clock : Clock}
  {systemTime : Int} {payload : Bytes} {info : Core.ReleaseInfo}

theorem targetInfo_of_readAs (hagree : Agreeing digest out ports)
    {description : Tuf.TargetDescription}
    (h : ReadAs description (Core.targetFile out payload info)) :
    targetInfo description =
      .ok ⟨UInt64.ofNat payload.length, digest.sum payload, clientInfo info⟩ := by
  obtain ⟨read, hread, hhashes⟩ := h.hashes
  have hsum : read = digest.sum payload := by
    rw [Core.targetFile, hagree.sha256, decodeHex_hex] at hread
    exact (Option.some.inj hread).symm
  have hrelease : releaseInfo description.custom = .ok (clientInfo info) := by
    rw [← releaseInfo_toCustom]
    simp only [releaseInfo, h.custom, Core.targetFile]
  have hlength : description.length = UInt64.ofNat payload.length := by
    rw [h.length, Core.targetFile, hagree.length]
  have hlookup : description.hashes.lookup .Sha256 = some (digest.sum payload) := by
    rw [hhashes, hsum]
    rfl
  simp only [targetInfo, hlookup, digest.length_sum, hrelease, hlength, if_true]

/-- What a release says survives the struct; a segment has no NUL. -/
theorem seen_eq_released (digest : Core.Digest) (payload : Bytes) (info : Core.ReleaseInfo) :
    (TargetInfo.mk (UInt64.ofNat payload.length) (digest.sum payload) (clientInfo info)).seen =
      released digest payload info := by
  have hnul : Utf8.NUL ∉ info.version.toList := by
    intro hmem
    obtain hc | hc := Core.segmentMatches_chars info.versionSafe _ hmem
    · exact absurd hc (by decide)
    · exact absurd hc (by decide)
  rw [TargetInfo.seen, released, clientInfo, cString_eq_self_iff.mpr hnul]

section Answers

variable {target : TargetPath → Except VerifyError TargetInfo} {parsed : TargetPath}

theorem lookupTarget_described (hparse : TargetPath.parse path = .ok parsed) {info : TargetInfo}
    (htarget : target parsed = .ok info)
    (hroom : (Utf8.bytes info.release.version).length ≤ DIST_VERSION_CAPACITY - 1) :
    lookupTarget target path = .ok (some info.seen) := by
  refine lookupTarget_eq_some.mpr
    (bindingTarget_eq_some.mpr ⟨parsed, info, ?_, htarget, hroom, rfl⟩)
  rw [cString_eq_self_iff.mpr (nul_not_mem_of_parse hparse), hparse]

theorem lookupTarget_unknown (hparse : TargetPath.parse path = .ok parsed)
    (htarget : target parsed = .error .UnknownTarget) : lookupTarget target path = .ok none := by
  have hbinding : bindingTarget target path = .error ⟨.UnknownTarget, path⟩ := by
    rw [bindingTarget, distVerifierTarget,
      cString_eq_self_iff.mpr (nul_not_mem_of_parse hparse), hparse]
    simp only [htarget]
    rfl
  rw [lookupTarget, hbinding]

end Answers

theorem firstSegment_of_acceptable (hid : Core.appIdMatches appId = true) {parsed : TargetPath}
    (hacc : ClientAcceptable appId parsed.asStr) :
    Text.firstSegment parsed.asStr = appId.toList :=
  (matchesPattern_iff hacc.tufPath hid).mp hacc.covered

namespace Loaded

variable (h : Loaded appId listing now db) (hid : Core.appIdMatches appId = true)
  (hacc : ClientAcceptable appId path)
  (hnow : (TufVerifier.mk db clock).now systemTime = .ok now)

include h hid hacc hnow

/-- A listed path is answered with what is listed. -/
theorem target_listed {file : Core.TargetFile} (hget : listing.get path = some file) :
    ∃ parsed description, TargetPath.parse path = .ok parsed ∧ ReadAs description file ∧
      (TufVerifier.mk db clock).target systemTime parsed = targetInfo description := by
  obtain ⟨parsed, hparse, rfl⟩ := hacc.parsed
  obtain ⟨top, hfresh, hshape, hempty⟩ := h.top
  obtain ⟨leaf, hloaded, hunexpired, -, hlookup⟩ := h.leaf
  have hrel := hlookup _ _ hacc.tufPath
  rw [hget] at hrel
  cases hlisted : leaf.targets.lookup ⟨parsed.asStr⟩ with
  | none => rw [hlisted] at hrel; cases hrel
  | some description =>
    rw [hlisted] at hrel
    have hread : ReadAs description file := by
      cases hrel with
      | some hread => exact hread
    let entry : Listed ⟨db, clock⟩ systemTime parsed appId := {
      now
      now_eq := hnow
      tufPath := ⟨parsed.asStr⟩
      tufPath_eq := hacc.tufPath
      top
      top_eq := hfresh.targets
      apps := [appId]
      shape := hshape
      app_mem := List.mem_singleton_self _
      under := firstSegment_of_acceptable hid hacc
      md := leaf
      loaded := hloaded
      unexpired := hunexpired
      description
      listed := hlisted }
    refine ⟨parsed, description, hparse, hread, ?_⟩
    have htarget := entry.target_of_fresh hfresh
    rw [htarget]
    simp only [entry, hempty, List.lookup_nil, List.head?_cons, if_true]

/-- Of any other path nothing is known. -/
theorem target_unlisted (hget : listing.get path = none) :
    ∃ parsed, TargetPath.parse path = .ok parsed ∧
      (TufVerifier.mk db clock).target systemTime parsed = .error .UnknownTarget := by
  obtain ⟨parsed, hparse, rfl⟩ := hacc.parsed
  obtain ⟨top, hfresh, hshape, hempty⟩ := h.top
  obtain ⟨leaf, hloaded, -, hflat, hlookup⟩ := h.leaf
  have hrel := hlookup _ _ hacc.tufPath
  rw [hget] at hrel
  have hnone : leaf.targets.lookup ⟨parsed.asStr⟩ = none := by
    cases hlisted : leaf.targets.lookup ⟨parsed.asStr⟩ with
    | none => rfl
    | some description => rw [hlisted] at hrel; cases hrel
  have hunknown : ∀ description, db.targetDescription now ⟨parsed.asStr⟩ ≠ .ok description := by
    intro description hfound
    obtain ⟨top', hfresh', hsearch⟩ := Database.targetDescription_eq_ok.mp hfound
    obtain rfl : top' = top := Option.some.inj (hfresh'.targets.symm.trans hfresh.targets)
    obtain hlisted | ⟨delegations, chain, md, -, hchain, hhead, hlisted⟩ :=
      listedFor_of_searchFrom hacc.tufPath hshape (firstSegment_of_acceptable hid hacc) hsearch
    · rw [hempty] at hlisted
      cases hlisted
    · have hleaf : ∀ {d : Tuf.Delegation} {md : TargetsMetadata}, d.role = appRole appId →
          db.trustedDelegations.lookup d.role = some md → md = leaf := fun hrole hlook =>
        Option.some.inj ((hrole ▸ hlook).symm.trans hloaded)
      cases hchain with
      | last _ _ hlook =>
        rw [hleaf (Option.some.inj hhead) hlook, hnone] at hlisted
        cases hlisted
      | step _ _ hlook hchild _ =>
        rw [hleaf (Option.some.inj hhead) hlook, hflat] at hchild
        cases hchild
  refine ⟨parsed, hparse, ?_⟩
  simp only [TufVerifier.target, TufVerifier.description, hnow, hacc.tufPath, Fallible.bind_ok]
  cases hfound : db.targetDescription now ⟨parsed.asStr⟩ with
  | error e => rfl
  | ok description => exact absurd hfound (hunknown description)

theorem lookup_listed (hagree : Agreeing digest out ports)
    (hget : listing.get path = some (Core.targetFile out payload info))
    (hroom : (Utf8.bytes info.version).length ≤ DIST_VERSION_CAPACITY - 1) :
    lookupTarget ((TufVerifier.mk db clock).target systemTime) path =
      .ok (some (released digest payload info)) := by
  obtain ⟨parsed, description, hparse, hread, htarget⟩ := h.target_listed hid hacc hnow hget
  rw [targetInfo_of_readAs hagree hread] at htarget
  rw [← seen_eq_released]
  exact lookupTarget_described hparse htarget hroom

theorem lookup_unlisted (hget : listing.get path = none) :
    lookupTarget ((TufVerifier.mk db clock).target systemTime) path = .ok none := by
  obtain ⟨parsed, hparse, htarget⟩ := h.target_unlisted hid hacc hnow hget
  exact lookupTarget_unknown hparse htarget

end Loaded

end Lookups

/-! ## The check of a channel -/

theorem currentRelease_make {path version : String} {pointer : CurrentRelease}
    (h : CurrentRelease.make path version = .ok pointer) :
    pointer.targetPath = path ∧ pointer.version = version := by
  unfold CurrentRelease.make at h
  split at h
  · cases h
  · split at h
    · rw [← Except.ok.inj h]
      exact ⟨rfl, rfl⟩
    · cases h

section Resolve

variable {digest : Core.Digest} {out : Core.Outside Bytes} {ports : Ports} {path : String}
  {payload : Bytes} {info : Core.ReleaseInfo}

/-- A payload that was stored is fetched and passes. -/
theorem fetchVerified_released (hagree : Agreeing digest out ports) (info : Core.ReleaseInfo)
    (hfetch : ports.fetch ("targets/" ++ Core.payloadPath path (out.sha256 payload)) = .ok payload)
    (hlength : payload.length < Tuf.U64_END) :
    fetchVerified ports (released digest payload info) path = .ok payload := by
  have hsize : (UInt64.ofNat payload.length).toNat = payload.length :=
    UInt64.toNat_ofNat_of_lt' hlength
  have hpasses : bindingVerifyPayload ports.sha256 (released digest payload info) payload =
      .ok () := by
    simp [bindingVerifyPayload, verifyPayload, released, hsize, hagree.sum]
  refine Fallible.bind_eq_ok.mpr ⟨payload, ?_, ?_⟩
  · rw [fetch, storedTargetPath_eq]
    rw [hagree.sha256] at hfetch
    exact Fallible.mapError_eq_ok.mpr hfetch
  · rw [hpasses]
    rfl

theorem parsePointer_of_loads {pointer : CurrentRelease} {raw : Bytes}
    (hloads : ports.loads raw = .ok pointer.toJson) :
    parsePointer ports raw = .ok (pointer.targetPath, pointer.version) := by
  rw [parsePointer, hloads]
  rfl

/-- The client decides on a signed percentage as the server's reference does. -/
theorem bindingInRollout_released (hagree : Agreeing digest out ports) (payload : Bytes)
    (info : Core.ReleaseInfo) {installId appId : String}
    (hinstall : Utf8.NUL ∉ installId.toList) (happ : Utf8.NUL ∉ appId.toList) :
    bindingInRollout ports.sha256 installId appId (released digest payload info).rolloutPct =
      .ok (decide ((Core.bucket digest installId appId : Int) < info.rolloutPct)) := by
  have hpct : UInt32.ofNat info.rolloutPct.toNat = UInt32.ofInt info.rolloutPct := by
    change _ = UInt32.ofNat (arriving info.rolloutPct).toNat
    rw [arriving_of_mem info.pctInRange]
  have hcarried : Carried installId appId info.rolloutPct :=
    ⟨fun _ => info.pctInRange, fun _ => ⟨hinstall, happ⟩⟩
  rw [hagree.sum, released, hpct]
  exact pyInRollout_of_carried hcarried info.pctInRange

end Resolve

section Result

variable {ic : Interchange} {enc : Core.Encoding} {backend : Core.SignerBackend}
  {digest : Core.Digest} {out : Core.Outside Bytes} {ports : Ports} {appId role path : String}
  {d : Core.Catalogue Bytes} {calls : List (Core.Call Bytes)} {channel : ChannelKey}
  {installId : String} {payload : Bytes} {info : Core.ReleaseInfo}

/-- Everything that is listed has a name that the client lets through. -/
theorem acceptable_of_listed (hrole : Core.appRoleName appId = .ok role)
    (h : Justified (fun call older => call.Checked out role older) calls)
    (hplain : ∀ call ∈ calls, Deliverable out call)
    (hlisted : listedAt out path calls = some (payload, info)) :
    ClientAcceptable appId path ∧ payload.length < Tuf.U64_END := by
  have hid := (Core.appRoleName_eq_ok.mp hrole).1
  obtain ⟨key, hmem, rfl, happ, -⟩ | ⟨key, pointer, hmem, rfl, happ, hpointer, rfl, -⟩ :=
    Core.listedAt_cases h hlisted
  · obtain rfl := Core.appRoleName_injective happ hrole
    obtain ⟨hlines, hlength⟩ := hplain _ hmem
    exact ⟨(release_acceptable_iff hid).mpr hlines, hlength⟩
  · obtain rfl := Core.appRoleName_injective happ hrole
    obtain ⟨hlines, -, hlength⟩ := hplain _ hmem
    have hacc : ClientAcceptable key.channelKey.appId key.channelKey.pointerPath :=
      (pointer_acceptable_iff (c := key.channelKey) hid).mpr hlines
    exact ⟨hacc, (hlength pointer hpointer).trans_lt (by decide)⟩

/-- What a loaded verifier makes of the channel: the release that was made current last, as it
was published last, where the installation is in its rollout. -/
theorem resolve_of_loaded (hagree : Agreeing digest out ports)
    (hrole : Core.appRoleName channel.appId = .ok role)
    (h : Justified (fun call older => call.Checked out role older) calls)
    (hplain : ∀ call ∈ calls, Deliverable out call) (hloads : ReadsPointers out ports calls)
    (hlines : ∀ x ∈ [channel.appId, channel.platform, channel.arch], '\n' ∉ x.toList)
    (hstored : ∀ path payload info, listedAt out path calls = some (payload, info) →
      ports.fetch ("targets/" ++ Core.payloadPath path (out.sha256 payload)) = .ok payload)
    (hinstall : Utf8.NUL ∉ installId.toList) {listing : Table String Core.TargetFile}
    (hlisting : ∀ path, listing.get path =
      (listedAt out path calls).map fun row => Core.targetFile out row.1 row.2)
    {now : Time} {db : Database} (hloaded : Loaded channel.appId listing now db) {clock : Clock}
    {systemTime : Int} (hnow : (TufVerifier.mk db clock).now systemTime = .ok now) :
    resolve ports installId channel.client ((TufVerifier.mk db clock).target systemTime) =
      .ok (offered digest out installId channel calls) := by
  have hid := (Core.appRoleName_eq_ok.mp hrole).1
  have hpointerPath := (pointer_acceptable_iff (c := channel) hid).mpr hlines
  have happ : Utf8.NUL ∉ channel.appId.toList := fun hc => by
    have := Core.appIdMatches_chars hid _ hc
    revert this
    decide
  cases hcurrent : current channel calls with
  | none =>
    have hget : listing.get channel.pointerPath = none := by
      rw [hlisting, listedAt_pointerPath h, hcurrent]
      rfl
    have hlookup := hloaded.lookup_unlisted hid hpointerPath hnow hget
    rw [← Core.pointerPath_client] at hlookup
    simp only [resolve, hlookup, Fallible.bind_ok, offered, hcurrent]
    rfl
  | some key =>
    obtain ⟨hmem, hpath, ⟨pointer, hpointer⟩, _, payload, info, -, -, hversion, hlisted⟩ :=
      current_published h hcurrent
    obtain ⟨htarget, hpointed⟩ := currentRelease_make hpointer
    obtain ⟨-, hroom, hsize⟩ := hplain _ hmem
    have hlistedPointer : listedAt out channel.pointerPath calls =
        some (out.dumps pointer.toJson, Core.pointerInfo key) := by
      rw [listedAt_pointerPath h, hcurrent, Option.bind_some, hpointer]
      rfl
    have hstarts : Text.startsWith key.path channel.client.pathPrefix = true := by
      have hprefix : key.channelKey.pathPrefix = channel.pathPrefix := by
        have hchars := congrArg String.toList hpath
        simpa [ChannelKey.pointerPath, String.toList_inj] using hchars
      rw [Core.pathPrefix_client, ← hprefix]
      exact key.covers_path
    -- the pointer, and the release that it names
    have hgetPointer : listing.get channel.pointerPath =
        some (Core.targetFile out (out.dumps pointer.toJson) (Core.pointerInfo key)) := by
      rw [hlisting, hlistedPointer]
      rfl
    have hgetRelease : listing.get key.path = some (Core.targetFile out payload info) := by
      rw [hlisting, hlisted]
      rfl
    have hfound := hloaded.lookup_listed hid hpointerPath hnow hagree hgetPointer hroom
    have hfetched := fetchVerified_released hagree (Core.pointerInfo key)
      (hstored _ _ _ hlistedPointer) ((hsize pointer hpointer).trans_lt (by decide))
    have hrelease := hloaded.lookup_listed hid (acceptable_of_listed hrole h hplain hlisted).1 hnow
      hagree hgetRelease (hversion ▸ hroom)
    have hrollout := bindingInRollout_released hagree payload info hinstall happ
    have hnotLarge : ¬ MAX_POINTER_BYTES < (out.dumps pointer.toJson).length :=
      Nat.not_lt.mpr (hsize pointer hpointer)
    have hparsed := parsePointer_of_loads (hloads _ _ hmem hpointer)
    rw [htarget, hpointed] at hparsed
    have hdescribed : (released digest payload info).version = key.version := hversion
    have hserver := @Core.inRollout_of_mem digest installId channel.appId _ info.pctInRange
    rw [← Core.pointerPath_client] at hfound hfetched
    have happId : channel.client.appId = channel.appId := rfl
    simp only [resolve, hfound, Fallible.bind_ok, hfetched, hnotLarge, if_false, hparsed,
      resolveRelease, hstarts, Bool.not_true, Bool.false_eq_true, hrelease, hdescribed, ne_eq,
      not_true_eq_false, happId, hrollout, offered, hcurrent, Option.bind_eq_bind,
      Option.bind_some, hlisted, hserver]
    generalize decide ((Core.bucket digest installId channel.appId : Int) < info.rolloutPct) =
      inside
    cases inside <;> rfl

end Result

/-! ## The result -/

/-- Between the instances that run the catalogue and one check of a channel: both sides take the
same from elsewhere, the mirror has what is on disk, and nothing on it has expired. -/
structure Delivering (ic : Interchange) (enc : Core.Encoding) (backend : Core.SignerBackend)
    (digest : Core.Digest) (out : Core.Outside Bytes) (channel : ChannelKey) (role : String)
    (d : Core.Catalogue Bytes) (app : Installed) (check : Check) (now : Time) : Prop where
  reachable : (Core.catalogue out backend channel.appId).Reachable d
  lists : Core.ListsReported out.tuf
  refuses : Core.RefusesRollback out.tuf
  distinct : backend.Distinct
  named : Core.appRoleName channel.appId = .ok role
  seen : Seen role
  lines : ∀ x ∈ [channel.platform, channel.arch], '\n' ∉ x.toList
  plain : ∀ call ∈ d.calls, Deliverable out call
  keys : Keys ic enc backend
  channel : app.channel = channel.client
  install : Utf8.NUL ∉ app.installId.toList
  agree : Agreeing digest out check.ports
  loads : ReadsPointers out check.ports d.calls
  mirrors : Mirrors ic enc backend role d.session.dir check.ports app.root
  clock : check.now = .ok now
  valid : ∀ name ∈ rolesOf role, Valid ic enc d.session.dir.log now name

namespace Delivering

variable {ic : Interchange} {enc : Core.Encoding} {backend : Core.SignerBackend}
  {digest : Core.Digest} {out : Core.Outside Bytes} {channel : ChannelKey} {role : String}
  {d : Core.Catalogue Bytes} {app : Installed} {check : Check} {now : Time}
  (h : Delivering ic enc backend digest out channel role d app check now)

include h

theorem serving : Serving out backend channel.appId role d ∧
    Justified (fun call older => call.Checked out role older) d.calls :=
  Core.serving_of_reachable h.lists h.refuses h.distinct h.named h.seen h.reachable

theorem stored {path : String} {payload : Bytes} {info : Core.ReleaseInfo}
    (hlisted : listedAt out path d.calls = some (payload, info)) :
    check.ports.fetch ("targets/" ++ Core.payloadPath path (out.sha256 payload)) = .ok payload :=
  h.mirrors.payloads _ _ (h.serving.1.payloads path payload info hlisted)

/-- The check answers with the current release, to the installations in its rollout. -/
theorem run : check.run ic app = .ok (offered digest out app.installId channel d.calls) := by
  obtain ⟨hserving, hjustified⟩ := h.serving
  have hroute : Route ic enc backend out channel.appId role d check.ports app.root now :=
    ⟨hserving, h.named, h.seen, h.keys, h.distinct, h.mirrors, h.valid⟩
  obtain ⟨listing, hheld, hlisting⟩ := hserving.listing
  have hlegible : AllLegible listing := by
    intro path file hget
    rw [hlisting, Option.map_eq_some_iff] at hget
    obtain ⟨⟨payload, info⟩, hlisted, rfl⟩ := hget
    obtain ⟨hacc, hlength⟩ := acceptable_of_listed h.named hjustified h.plain hlisted
    refine ⟨⟨_, hacc.tufPath⟩, ?_, digest.sum payload, ?_⟩
    · rwa [Core.targetFile, h.agree.length]
    · rw [Core.targetFile, h.agree.sha256, decodeHex_hex]
  have hclock (db) : (TufVerifier.mk db check.clock).now check.systemTime = .ok now := h.clock
  have hclient : app.channel.role = role := by
    rw [h.channel, (Core.appRoleName_eq_ok.mp h.named).2]
    rfl
  obtain ⟨db, haccept, hloaded⟩ := hroute.accepts hheld hlegible hclient hclock
  have hline : '\n' ∉ channel.appId.toList := (Core.seen_of_appId h.named).mp h.seen
  rw [Check.run, run_of_accepted haccept, h.channel]
  exact resolve_of_loaded h.agree h.named hjustified h.plain h.loads
    (List.forall_mem_cons.mpr ⟨hline, h.lines⟩) (fun _ _ _ hlisted => h.stored hlisted) h.install
    hlisting hloaded (hclock db)

/-- The payload of the current release is fetched and passes. -/
theorem fetched {available : Available}
    (hoffered : offered digest out app.installId channel d.calls = some available) :
    ∃ key payload info, current channel d.calls = some key ∧
      listedAt out key.path d.calls = some (payload, info) ∧
      fetchVerified check.ports available.info available.targetPath = .ok payload := by
  obtain ⟨key, hcurrent, hoffered⟩ := Option.bind_eq_some_iff.mp hoffered
  obtain ⟨⟨payload, info⟩, hlisted, hoffered⟩ := Option.bind_eq_some_iff.mp hoffered
  dsimp only at hoffered
  split at hoffered
  · obtain rfl := Option.some.inj hoffered
    exact ⟨key, payload, info, hcurrent, hlisted, fetchVerified_released h.agree info
      (h.stored hlisted) (acceptable_of_listed h.named h.serving.2 h.plain hlisted).2⟩
  · cases hoffered

end Delivering

def ascii (text : String) : Bytes := text.toList.map fun c => UInt8.ofNat c.toNat

def editorKey : TargetKey := Core.editorKey "editor" Core.editor_safe

def editorPayload : Bytes := ascii "editor 1.0"

theorem editorKey_usable : editorKey.path ≠ "" ∧ '\\' ∉ editorKey.path.toList := by
  decide +kernel

def editorPointer : CurrentRelease where
  targetPath := editorKey.path
  version := "1.0"
  versionSafe := editorKey.version_safe
  pathUsable := editorKey_usable

theorem make_editorPointer :
    CurrentRelease.make editorKey.path editorKey.version = .ok editorPointer := by
  decide +kernel

/-- The digests of the payload and of the pointer to it. -/
def knownDigests : Table Bytes Bytes :=
  [(editorPayload,
      [133, 186, 255, 84, 26, 147, 209, 197, 2, 64, 32, 196, 12, 121, 137, 10,
        49, 35, 153, 57, 151, 118, 26, 79, 142, 199, 1, 12, 12, 54, 61, 20]),
    (render editorPointer.toJson,
      [10, 199, 44, 128, 151, 2, 93, 240, 173, 64, 58, 86, 237, 200, 142, 205,
        199, 243, 17, 78, 25, 117, 226, 121, 235, 97, 124, 44, 51, 25, 20, 190])]

def digests : Core.Digest where
  sum message := (knownDigests.get message).getD (List.replicate 32 0)
  length_sum message := by
    have hall : ∀ row ∈ knownDigests, row.2.length = 32 := by decide +kernel
    cases hget : knownDigests.get message with
    | none => exact List.length_replicate
    | some digest => exact hall _ (Table.mem_of_get hget)

theorem plain_of_mem_hex (digest : Bytes) : ∀ c ∈ (hex digest).toList, c ≠ '/' ∧ c ≠ '.' := by
  have hdigit : ∀ n < 16, Nat.digitChar n ≠ '/' ∧ Nat.digitChar n ≠ '.' := by decide
  intro c hc
  rw [hex, String.toList_ofList, List.mem_flatMap] at hc
  obtain ⟨b, -, hc⟩ := hc
  have hhigh : b.toNat / 16 < 16 := by
    have := b.toNat_lt
    omega
  simp only [List.mem_cons, List.not_mem_nil, or_false] at hc
  obtain rfl | rfl := hc
  · exact hdigit _ hhigh
  · exact hdigit _ (Nat.mod_lt _ (by decide))

def bytePayloads : Core.Outside Bytes where
  sha256 payload := hex (digests.sum payload)
  length := List.length
  dumps := render
  clock _ := 20454
  tuf := Core.pythonTuf
  sha256_hex payload := plain_of_mem_hex (digests.sum payload)

def ownKey : String × String :=
  ("5e96befc607ef841c37eb7394ab3dd641fbffb1c86b08675facab7aec3412194",
    "278117fc144c72340f67d0f2316e8386ceffbf2b2428c9c51fef7c597f1d426e")

/-- Three keys at the top, and one of its own for the application. -/
def fourKeys : Core.SignerBackend where
  keyids role := if role = "app-editor" then [ownKey.1] else ed25519.map (·.1)
  publicKey id := (Table.get (ownKey :: ed25519) id).getD ""

deriving instance DecidableEq for Core.Call

/-- One release is added and made current. -/
def firstRelease : Option (Core.Catalogue Bytes) := do
  let s ← Core.opened bytePayloads fourKeys "editor" false 9
  System.exec (Core.Catalogue.next bytePayloads)
    [.call (.addRelease editorKey editorPayload Core.editorInfo) 9, .restart,
      .call (.setCurrent editorKey) 9] ⟨s, []⟩

def ownDelegation : Core.Delegations :=
  ⟨[ownKey], [("app-editor", ⟨"app-editor", [ownKey.1], 1, false, ["editor/*/*/*/*"]⟩)]⟩

def editorListing : Table String Core.TargetFile :=
  [(editorKey.channelKey.pointerPath,
      Core.targetFile bytePayloads (render editorPointer.toJson) (Core.pointerInfo editorKey)),
    (editorKey.path, Core.targetFile bytePayloads editorPayload Core.editorInfo)]

/-- The last file of each role. -/
def lastFiles : Table String Core.Metadata :=
  [("1.root.json", rootFile), ("timestamp.json", signedFile (.timestamp 4) 4 20455),
    ("4.snapshot.json", signedFile (.snapshot [("targets.json", 2), ("app-editor.json", 3)])
      4 20461),
    ("2.targets.json", signedFile (.targets ⟨[], some ownDelegation⟩) 2 20544),
    ("3.app-editor.json", ⟨.targets ⟨editorListing, none⟩, 3, 20468, [ownKey.1]⟩)]

def lastPayloads : Table String Bytes :=
  [("targets/editor/stable/linux-x64/_current/" ++
      "0ac72c8097025df0ad403a56edc88ecdc7f3114e1975e279eb617c2c331914be.release.json",
      render editorPointer.toJson),
    ("targets/editor/stable/linux-x64/1.0/" ++
      "85baff541a93d1c5024020c40c79890a3123993997761a4f8ec7010c0c363d14.editor.zip",
      editorPayload)]

def keyIn (keys : Table String String) (value : Json) : Option Tuf.PublicKey := do
  let text ← (← (← value.get? "keyval").get? "public").str?
  let row ← keys.find? (·.2 = text)
  return ⟨row.1, text⟩

/-- JSON and dates as far as the last files need them, and signatures that are all genuine. -/
def lastInterchange : Interchange where
  fromSlice raw := (lastFiles.map fun row => document row.2).find? fun document =>
    render document == raw
  canonicalize value := ((lastFiles.map fun row => Json.obj (Core.toDict encoding row.2)).find?
    (· == value)).map render
  parseDatetime := interchange.parseDatetime
  publicKey := keyIn (ownKey :: ed25519)
  verify _ _ _ := true

def releasePorts : Ports where
  fetch name := match lastFiles.get name, lastPayloads.get name with
    | some md, _ => .ok (render (document md))
    | none, some payload => .ok payload
    | none, none => .error "404"
  loads raw := if raw = render editorPointer.toJson then .ok editorPointer.toJson
    else .error "not the pointer"
  sha256 := digests.sum

def editorInstalled : Installed where
  root := render (document rootFile)
  installId := "7f3c"
  channel := editorKey.channelKey.client

def releaseCheck : Check := ⟨releasePorts, .Fixed noon, noon⟩

def offeredRelease : Available :=
  ⟨"1.0", editorKey.path, released digests editorPayload Core.editorInfo⟩

theorem firstRelease_written : ∃ d, firstRelease = some d ∧
    d.calls = [.setCurrent editorKey, .addRelease editorKey editorPayload Core.editorInfo] ∧
    (∀ name ∈ rolesOf "app-editor", ∀ md ∈ Core.lastOf name d.session.dir.log,
      lastFiles.get (Core.filename name md.version) = some md) ∧
    ∀ row ∈ d.session.dir.payloads, lastPayloads.get ("targets/" ++ row.1) = some row.2 := by
  have hrun : firstRelease.map (fun d => decide
      (d.calls = [.setCurrent editorKey, .addRelease editorKey editorPayload Core.editorInfo] ∧
        (∀ name ∈ rolesOf "app-editor", ∀ md ∈ Core.lastOf name d.session.dir.log,
          lastFiles.get (Core.filename name md.version) = some md) ∧
        ∀ row ∈ d.session.dir.payloads, lastPayloads.get ("targets/" ++ row.1) = some row.2)) =
      some true := by
    decide +kernel
  obtain ⟨d, hd, hwritten⟩ := Option.map_eq_some_iff.mp hrun
  exact ⟨d, hd, of_decide_eq_true hwritten⟩

theorem reachable_firstRelease {d : Core.Catalogue Bytes} (h : firstRelease = some d) :
    (Core.catalogue bytePayloads fourKeys "editor").Reachable d := by
  unfold firstRelease at h
  obtain ⟨s, hopened, hexec⟩ := Option.bind_eq_some_iff.mp h
  exact System.reachable_of_exec (fun _ _ _ h => h) (.start ⟨⟨false, 9, hopened⟩, rfl⟩) hexec

/-- A value is found by its text where no two have the same. -/
theorem find?_of_nodup_map {α β : Type} [BEq β] [LawfulBEq β] {f : α → β} {xs : List α}
    (h : (xs.map f).Nodup) {x : α} (hx : x ∈ xs) : xs.find? (fun y => f y == f x) = some x := by
  induction xs with
  | nil => cases hx
  | cons y ys ih =>
    rw [List.map_cons, List.nodup_cons] at h
    rw [List.find?_cons]
    by_cases heq : f y = f x
    · obtain rfl : x = y := by
        obtain rfl | hrest := List.mem_cons.mp hx
        · rfl
        · exact absurd (heq ▸ List.mem_map_of_mem hrest) h.1
      simp
    · obtain rfl | hrest := List.mem_cons.mp hx
      · exact absurd rfl heq
      · rw [beq_eq_false_iff_ne.mpr heq]
        exact ih h.2 hrest

theorem published_lastFiles : ∀ row ∈ lastFiles,
    Published lastInterchange encoding fourKeys (render (document row.2)) row.2
      (Core.toDict encoding row.2) := by
  have hdocuments : ((lastFiles.map fun row => document row.2).map render).Nodup := by
    decide +kernel
  have hread : ∀ row ∈ lastFiles, row.2.signed.Distinct ∧
      (lastInterchange.canonicalize (.obj (Core.toDict encoding row.2))).isSome ∧
      (Tuf.listOf Tuf.signature (.arr (row.2.signatures.map fun id =>
        .obj [("keyid", .str id), ("sig", .str "00")]))).map (·.map (·.keyId)) =
          some row.2.signatures := by
    decide +kernel
  intro row hrow
  obtain ⟨hdistinct, hbytes, hsignatures⟩ := hread row hrow
  obtain ⟨signatures, hsignatures, hkeyIds⟩ := Option.map_eq_some_iff.mp hsignatures
  obtain ⟨bytes, hbytes⟩ := Option.isSome_iff_exists.mp hbytes
  have hfound : lastInterchange.fromSlice (render (document row.2)) = some (document row.2) :=
    find?_of_nodup_map hdocuments (List.mem_map_of_mem (f := fun row => document row.2) hrow)
  have hsigned : Tuf.signedMetadata lastInterchange (render (document row.2)) =
      some (signatures, .obj (Core.toDict encoding row.2)) := by
    rw [Tuf.signedMetadata, hfound]
    simp only [document, Tuf.fields, Option.bind_eq_bind, Option.bind_some, List.lookup_cons_self,
      hsignatures]
    rfl
  exact ⟨Core.signedAs_toDict hdistinct, signatures, bytes, hsigned, hbytes, hkeyIds,
    fun _ _ _ _ => rfl⟩

theorem keys_fourKeys : Keys lastInterchange encoding fourKeys := by
  have hall : ∀ row ∈ ownKey :: ed25519, row.1.utf8ByteSize = 64 ∧
      ∃ key ∈ lastInterchange.publicKey (encoding.key (fourKeys.publicKey row.1)),
        key.keyId = row.1 := by
    decide +kernel
  intro role keyid hmem
  have hlisted : keyid ∈ (ownKey :: ed25519).map (·.1) := by
    simp only [fourKeys] at hmem
    split at hmem
    · exact List.mem_cons.mpr (.inl (List.mem_singleton.mp hmem))
    · exact List.mem_cons_of_mem _ hmem
  obtain ⟨row, hrow, rfl⟩ := List.mem_map.mp hlisted
  exact hall row hrow

theorem fourKeys_distinct : fourKeys.Distinct := by
  intro role
  simp only [fourKeys]
  split <;> decide

theorem delivering_editor : ∃ d,
    d.calls = [.setCurrent editorKey, .addRelease editorKey editorPayload Core.editorInfo] ∧
      Delivering lastInterchange encoding fourKeys digests bytePayloads editorKey.channelKey
        "app-editor" d editorInstalled releaseCheck noon := by
  obtain ⟨d, hd, hcalls, hlast, hpayloads⟩ := firstRelease_written
  have hfetch : ∀ name md, lastFiles.get name = some md →
      releasePorts.fetch name = .ok (render (document md)) := by
    intro name md hget
    simp only [releasePorts, hget]
  have hfetchPayload : ∀ name payload, lastPayloads.get name = some payload →
      releasePorts.fetch name = .ok payload := by
    have hother : ∀ row ∈ lastPayloads, lastFiles.get row.1 = none := by decide +kernel
    intro name payload hget
    simp only [releasePorts, hget, hother _ (Table.mem_of_get hget)]
  have hplain : ∀ call ∈ d.calls, Deliverable bytePayloads call := by
    have hpointer : ∀ pointer, CurrentRelease.make editorKey.path editorKey.version = .ok pointer →
        (render pointer.toJson).length ≤ MAX_POINTER_BYTES := by
      intro pointer hmake
      obtain rfl := Except.ok.inj (hmake.symm.trans make_editorPointer)
      decide +kernel
    rw [hcalls]
    simp only [List.forall_mem_cons, List.not_mem_nil, false_implies, implies_true, and_true]
    exact ⟨⟨by decide, by decide +kernel, hpointer⟩, by decide, by decide +kernel⟩
  have hloads : ReadsPointers bytePayloads releasePorts d.calls := by
    intro key pointer hmem hmake
    rw [hcalls] at hmem
    simp only [List.mem_cons, Core.Call.setCurrent.injEq, reduceCtorEq, List.not_mem_nil,
      or_false] at hmem
    obtain rfl := hmem
    obtain rfl := Except.ok.inj (hmake.symm.trans make_editorPointer)
    dsimp only [releasePorts, bytePayloads]
    exact if_pos rfl
  have hmirrors : Mirrors lastInterchange encoding fourKeys "app-editor" d.session.dir releasePorts
      editorInstalled.root := by
    refine ⟨fun name hname md hmd => ?_, fun path payload hget => ?_, hfetch _ _ rfl⟩
    · have hget := hlast name hname md hmd
      exact ⟨_, _, hfetch _ _ hget, published_lastFiles _ (Table.mem_of_get hget)⟩
    · exact hfetchPayload _ _ (hpayloads _ (Table.mem_of_get hget))
  have hvalid : ∀ name ∈ rolesOf "app-editor",
      Valid lastInterchange encoding d.session.dir.log noon name := by
    have hall : ∀ row ∈ lastFiles, row.2.version < Tuf.U32_END ∧
        ∃ expires ∈ lastInterchange.parseDatetime (encoding.expires row.2.expires),
          noon < expires := by
      decide +kernel
    intro name hname md hmd
    exact hall _ (Table.mem_of_get (hlast name hname md hmd))
  exact ⟨d, hcalls, reachable_firstRelease hd, Core.listsReported_pythonTuf,
    Core.refusesRollback_pythonTuf, fourKeys_distinct, by decide, by decide, by decide, hplain,
    keys_fourKeys, rfl, by decide, ⟨rfl, fun _ => rfl, fun _ => rfl⟩, hloads, hmirrors, rfl, hvalid⟩

theorem offered_editor : offered digests bytePayloads "7f3c" editorKey.channelKey
    [.setCurrent editorKey, .addRelease editorKey editorPayload Core.editorInfo] =
      some offeredRelease := by
  decide +kernel

end DistPlatform.Client
