import DistPlatform.Client.Handle
import DistPlatform.Queue.Supply

/-!
# From a poll to an installation

Both ends of the platform together: an installation is offered nothing that `ingest` has not
promoted for its application, whoever serves it the files and whichever keys of others are lost.

## Main definitions

* `SignsFiles` — the owners of the application's keys sign what its repository writes.
* `Supplying` — what a check and the workers of the platform have to do with each other.
-/

namespace DistPlatform.Core

/-! ## Characters of a path -/

/-- What stands in a path: characters of a segment, the line feed that `$` lets stand, and the
slash. -/
def pathChar (c : Char) : Bool := segmentRest c || c == '\n' || c == '/'

theorem pathChar_of_segment {value : String} (h : segmentMatches value = true) :
    ∀ c ∈ value.toList, pathChar c = true := by
  intro c hc
  obtain hrest | rfl := segmentMatches_chars h c hc
  · simp [pathChar, hrest]
  · rfl

theorem pathChar_pathPrefix (key : ChannelKey) :
    ∀ c ∈ key.pathPrefix.toList, pathChar c = true := by
  have hchannels : ∀ channel ∈ CHANNELS, ∀ c ∈ channel.toList, pathChar c = true := by decide
  have happ := pathChar_of_segment (key.segmentsSafe key.appId (by simp))
  have hplatform := pathChar_of_segment (key.segmentsSafe key.platform (by simp))
  have harch := pathChar_of_segment (key.segmentsSafe key.arch (by simp))
  have hchannel := hchannels _ key.channelKnown
  have hslash : pathChar '/' = true := by decide
  have hdash : pathChar '-' = true := by decide
  intro c hc
  simp only [ChannelKey.pathPrefix, channelPrefix, String.toList_append, List.mem_append] at hc
  grind

theorem TargetKey.pathChar_path (key : TargetKey) : ∀ c ∈ key.path.toList, pathChar c = true := by
  intro c hc
  rw [key.toList_path] at hc
  obtain hprefix | hc := List.mem_append.mp hc
  · exact pathChar_pathPrefix _ c hprefix
  · obtain hversion | hc := List.mem_append.mp hc
    · exact pathChar_of_segment key.version_safe c hversion
    · obtain rfl | hfilename := List.mem_cons.mp hc
      · decide
      · exact pathChar_of_segment (key.segmentsSafe key.filename (by simp)) c hfilename

theorem ChannelKey.pathChar_pointerPath (key : ChannelKey) :
    ∀ c ∈ key.pointerPath.toList, pathChar c = true := by
  intro c hc
  rw [key.toList_pointerPath] at hc
  obtain hprefix | hc := List.mem_append.mp hc
  · exact pathChar_pathPrefix key c hprefix
  · have hrest : ∀ c ∈ (POINTER_VERSION ++ "/" ++ POINTER_FILE).toList, pathChar c = true := by
      decide
    exact hrest c hc

end DistPlatform.Core

namespace DistPlatform.Client

open DistPlatform Runs
open DistPlatform.Tuf (Database Interchange KeyId RootMetadata TargetsMetadata MadeBy SignedOnly)
open DistPlatform.Core (Seen TargetKey ChannelKey CurrentRelease listedAt)
open DistPlatform.Fallible (bind_eq_some require_eq_some)
open DistPlatform.Ingest (IngestPorts Quarantine)
open DistPlatform.Queue (Promoted Supply)
open DistPlatform.Registry (Source)
open History

theorem nul_not_mem_of_pathChar {path : String} (h : ∀ c ∈ path.toList, Core.pathChar c = true) :
    Utf8.NUL ∉ path.toList := by
  intro hmem
  have hchar := h _ hmem
  revert hchar
  decide

/-! ## What is read was written -/

section Read

variable {ic : Interchange} {enc : Core.Encoding} {json : Json} {md : TargetsMetadata}
  {description : Tuf.TargetDescription} {file : Core.TargetFile}

/-- A description that the client has read of a file's object describes the file. -/
theorem readAs_of_fileAs {digest : List UInt8} (h : Core.TargetFileAs json file)
    (hdigest : Tuf.decodeHex file.sha256.toList = some digest)
    (hread : Tuf.targetDescription json = some description) : ReadAs description file := by
  have hlength : file.length < Tuf.U64_END := by
    obtain ⟨members, custom, rfl, hlen, -⟩ := h
    simp only [Tuf.targetDescription, bind_eq_some, Tuf.fields_obj, exists_eq_left', hlen,
      Option.some.injEq, Tuf.u64, Tuf.unsigned_int] at hread
    obtain ⟨_, ⟨hlength, -⟩, -⟩ := hread
    exact hlength
  obtain ⟨description', hread', hreadAs⟩ := targetDescription_of_fileAs h hlength hdigest
  obtain rfl := Option.some.inj (hread.symm.trans hread')
  exact hreadAs

/-- Every entry that the client has read of a listing is an entry of the listing. -/
theorem file_of_lookup {metadata : Core.Metadata} {members : List (String × Json)}
    {targets : Core.Targets} (h : Core.SignedAs enc metadata members)
    (hsigned : metadata.signed = .targets targets)
    (hdigests : ∀ path file, targets.targets.get path = some file →
      ∃ digest, Tuf.decodeHex file.sha256.toList = some digest)
    (hread : Tuf.targetsMetadata ic (.obj members) = some md) {path : String}
    {tufPath : Tuf.TargetPath} (hpath : Tuf.TargetPath.new path = .ok tufPath)
    (hlookup : md.targets.lookup tufPath = some description) :
    ∃ file, targets.targets.get path = some file ∧ ReadAs description file := by
  have hcontent := h.content
  rw [hsigned] at hcontent
  obtain ⟨⟨listed, hlisted, hlistedAs⟩, -⟩ := hcontent
  obtain ⟨rows, hrows, hsame⟩ : ∃ rows, Tuf.mapOf (fun path => (Tuf.TargetPath.new path).toOption)
      Tuf.targetDescription listed = some rows ∧ md.targets = rows := by
    simp only [Tuf.targetsMetadata, bind_eq_some, Tuf.fields_obj, exists_eq_left', hlisted,
      Option.some.injEq] at hread
    obtain ⟨_, -, rows, hrows, hread⟩ := hread
    refine ⟨rows, hrows, ?_⟩
    split at hread
    · exact Option.some.inj hread ▸ rfl
    · exact Option.some.inj hread ▸ rfl
    · obtain ⟨_, -, hread⟩ := bind_eq_some.mp hread
      exact Option.some.inj hread ▸ rfl
  rw [hsame] at hlookup
  obtain ⟨name, json, file, hname, hget, hfile, hdescription⟩ :=
    exists_of_mem_rows hlistedAs hrows (Table.mem_of_get hlookup)
  obtain rfl : name = path := by
    rw [← Tuf.TargetPath.value_of_new (Core.eq_ok_of_toOption hname),
      Tuf.TargetPath.value_of_new hpath]
  obtain ⟨digest, hdigest⟩ := hdigests name file hget
  exact ⟨file, hget, readAs_of_fileAs hfile hdigest hdescription⟩

theorem sum_of_verified {sha256 : Bytes → Bytes} {info : PyTargetInfo} {payload : Bytes}
    (h : bindingVerifyPayload sha256 info payload = .ok ()) : sha256 payload = info.sha256 := by
  unfold bindingVerifyPayload verifyPayload at h
  split at h
  · cases h
  next hok =>
    rw [Fallible.ite_error_eq_ok, Fallible.ite_error_eq_ok, not_not, not_not] at hok
    exact hok.2.1

end Read

/-! ## Both ends -/

/-- The owners of the application's keys sign no metadata but the files that its repository has
written. -/
def SignsFiles (ic : Interchange) (enc : Core.Encoding) (root : RootMetadata) (appId role : String)
    (lost : Finset KeyId) (made : KeyId → List UInt8 → Prop) (dir : Core.Directory Bytes) : Prop :=
  ∀ top threshold keys md, MadeBy ic lost made (topKeys root) top →
    Database.findDelegation top (appRole appId) = some (threshold, keys) →
      MadeBy ic lost made keys md → ∃ version file members,
        dir.metadata.get (Core.filename role version) = some file ∧
          Core.SignedAs enc file members ∧ Tuf.targetsMetadata ic (.obj members) = some md

/-- Between the workers of the platform and one check of a channel, which asks any mirror: the
keys of the top and of the application withstand what is lost, their owners sign what the
repository writes, and no answer of the mirror has the digest of a pointer and is another. -/
structure Supplying (ic : Interchange) (enc : Core.Encoding) (backend : Core.SignerBackend)
    (digest : Core.Digest) (out : Core.Outside Bytes) (iports : IngestPorts)
    (quarantine : Quarantine) (text : Core.RepositoryError → String) (channel : ChannelKey)
    (role : String) (root : RootMetadata) (lost : Finset KeyId)
    (made : KeyId → List UInt8 → Prop) (c : Supply) (app : Installed) (check : Check) : Prop where
  reachable : (Queue.supply iports quarantine out text backend channel.appId).Reachable c
  lists : Core.ListsReported out.tuf
  refuses : Core.RefusesRollback out.tuf
  distinct : backend.Distinct
  named : Core.appRoleName channel.appId = .ok role
  seen : Seen role
  sha256 : ∀ artifact, out.sha256 artifact = iports.lib.sha256 artifact
  configured : app.channel = channel.client
  agree : Agreeing digest out check.ports
  loads : ReadsPointers out check.ports c.store.calls
  resists : ∀ key pointer raw, .setCurrent key ∈ c.store.calls →
    CurrentRelease.make key.path key.version = .ok pointer → check.ports.Answers raw →
      digest.sum raw = digest.sum (out.dumps pointer.toJson) → raw = out.dumps pointer.toJson
  trusts : Tuf.Root ic app.root root
  custody : Custody ic root channel.appId lost made
  signs : SignsFiles ic enc root channel.appId role lost made c.store.session.dir
  only : ∀ raw, check.ports.Answers raw → SignedOnly ic lost made raw

namespace Supplying

variable {ic : Interchange} {enc : Core.Encoding} {backend : Core.SignerBackend}
  {digest : Core.Digest} {out : Core.Outside Bytes} {iports : IngestPorts}
  {quarantine : Quarantine} {text : Core.RepositoryError → String} {channel : ChannelKey}
  {role : String} {root : RootMetadata} {lost : Finset KeyId} {made : KeyId → List UInt8 → Prop}
  {c : Supply} {app : Installed} {check : Check}
  (h : Supplying ic enc backend digest out iports quarantine text channel role root lost made c
    app check)

include h

theorem checked :
    Justified (fun call older => call.Checked out role older) c.store.calls :=
  (Core.serving_of_reachable h.lists h.refuses h.distinct h.named h.seen
    (Queue.store_of_supply h.reachable)).2

/-- What the check is told about a path of the channel is what the calls have listed there. -/
theorem described {hd : Handle} (hreach : (handle ic app.root).Reachable hd)
    (hfed : hd.FedFrom check.ports.Answers) {path : String}
    (hstarts : Text.startsWith path channel.client.pathPrefix = true)
    (hnul : Utf8.NUL ∉ path.toList) {seen : PyTargetInfo}
    (hbinding : bindingTarget (hd.verifier.target check.systemTime) path = .ok (some seen)) :
    ∃ calls payload info, calls <:+ c.store.calls ∧
      listedAt out path calls = some (payload, info) ∧ seen = released digest payload info := by
  obtain ⟨hid, -⟩ := Core.appRoleName_eq_ok.mp h.named
  have hslash : '/' ∉ channel.client.appId.toList := fun hc =>
    (Core.appIdMatches_plain hid hc).1 rfl
  have happ : Char.ofNat 0 ∉ channel.client.appId.toList := fun hc => by
    have := Core.appIdMatches_chars hid _ hc
    revert this
    decide
  obtain ⟨parsed, info, hparse, htarget, -, hseen⟩ := bindingTarget_eq_some.mp hbinding
  have hfirst := firstSegment_of_parse hslash happ hstarts hparse
  obtain ⟨tufPath, description, top, threshold, keys, md, htuf, hinfo, htop, hfind, hmade,
      hlookup⟩ :=
    target_signed_by_app hreach h.trusts h.custody (fun f hf => h.only _ (hfed f hf)) hfirst htarget
  rw [asStr_of_parse hparse, cString_eq_self_iff.mpr hnul] at htuf
  obtain ⟨version, file, members, hfile, hsigned, hread⟩ := h.signs _ _ _ _ htop hfind hmade
  obtain ⟨calls, hsuffix, targets, htargets, hlisting⟩ :=
    Core.edition_of_get h.lists h.refuses h.distinct h.named h.seen
      (Queue.store_of_supply h.reachable) hfile
  have hlisted : ∀ path file, targets.get path = some file → ∃ payload info,
      listedAt out path calls = some (payload, info) ∧ Core.targetFile out payload info = file := by
    intro path file hget
    rw [hlisting, Option.map_eq_some_iff] at hget
    obtain ⟨⟨payload, info⟩, hlisted, hfile⟩ := hget
    exact ⟨payload, info, hlisted, hfile⟩
  have hdigests : ∀ path file, targets.get path = some file →
      ∃ digest, Tuf.decodeHex file.sha256.toList = some digest := by
    intro path file hget
    obtain ⟨payload, info, -, rfl⟩ := hlisted path file hget
    refine ⟨digest.sum payload, ?_⟩
    rw [Core.targetFile, h.agree.sha256, decodeHex_hex]
  obtain ⟨file, hget, hreadAs⟩ := file_of_lookup hsigned htargets hdigests hread htuf hlookup
  obtain ⟨payload, release, hrelease, rfl⟩ := hlisted path file hget
  refine ⟨calls, payload, release, hsuffix, hrelease, ?_⟩
  rw [targetInfo_of_readAs h.agree hreadAs] at hinfo
  rw [hseen, ← Except.ok.inj hinfo, seen_eq_released]

/-- The pointer that the check reads is one that a call of the repository has written. -/
theorem pointed {hd : Handle} (hreach : (handle ic app.root).Reachable hd)
    (hfed : hd.FedFrom check.ports.Answers) {seen : PyTargetInfo} {raw : Bytes}
    {targetPath version : String}
    (hbinding : bindingTarget (hd.verifier.target check.systemTime) channel.pointerPath =
      .ok (some seen))
    (hfetched : fetchVerified check.ports seen channel.pointerPath = .ok raw)
    (hparse : parsePointer check.ports raw = .ok (targetPath, version)) :
    ∃ key, .setCurrent key ∈ c.store.calls ∧ key.path = targetPath ∧ key.version = version := by
  have hstarts : Text.startsWith channel.pointerPath channel.client.pathPrefix = true := by
    rw [Core.pathPrefix_client, Text.startsWith_iff]
    exact ⟨_, channel.toList_pointerPath.symm⟩
  obtain ⟨calls, payload, info, hsuffix, hlisted, rfl⟩ := h.described hreach hfed hstarts
    (nul_not_mem_of_pathChar channel.pathChar_pointerPath) hbinding
  obtain ⟨newer, hsplit⟩ := id hsuffix
  have hchecked := h.checked
  rw [← hsplit] at hchecked
  obtain ⟨key, -, hpath, -⟩ | ⟨key, pointer, hmem, -, -, hpointer, rfl, -⟩ :=
    Core.listedAt_cases hchecked.older hlisted
  · exact absurd hpath (key.path_ne_pointerPath channel)
  · obtain ⟨body, hbody, hrest⟩ := Fallible.bind_eq_ok.mp hfetched
    obtain ⟨_, hverified, hsame⟩ := Fallible.bind_eq_ok.mp hrest
    obtain rfl : body = raw := Except.ok.inj hsame
    have hsum := sum_of_verified (Fallible.mapError_eq_ok.mp hverified)
    rw [h.agree.sum] at hsum
    have hraw := h.resists key pointer body (hsuffix.subset hmem) hpointer
      (answers_of_fetch (Fallible.mapError_eq_ok.mp hbody)) hsum
    rw [hraw, parsePointer_of_loads (h.loads key pointer (hsuffix.subset hmem) hpointer)] at hparse
    obtain ⟨rfl, rfl⟩ := Prod.mk.inj (Except.ok.inj hparse)
    obtain ⟨htarget, hversion⟩ := currentRelease_make hpointer
    exact ⟨key, hsuffix.subset hmem, htarget.symm, hversion.symm⟩

/-- What the check is told about a release of the channel was promoted. -/
theorem promoted {hd : Handle} (hreach : (handle ic app.root).Reachable hd)
    (hfed : hd.FedFrom check.ports.Answers) {key : TargetKey}
    (hstarts : Text.startsWith key.path channel.client.pathPrefix = true) {seen : PyTargetInfo}
    (hbinding : bindingTarget (hd.verifier.target check.systemTime) key.path = .ok (some seen)) :
    ∃ key' : TargetKey, key'.path = key.path ∧ key'.version = seen.version ∧ ∀ payload,
      bindingVerifyPayload check.ports.sha256 seen payload = .ok () →
        Promoted iports c.queue.shared.log channel.appId (out.sha256 payload) key'.version
          key'.filename := by
  obtain ⟨calls, artifact, info, hsuffix, hlisted, rfl⟩ := h.described hreach hfed hstarts
    (nul_not_mem_of_pathChar key.pathChar_path) hbinding
  obtain ⟨newer, hsplit⟩ := id hsuffix
  have hchecked := h.checked
  rw [← hsplit] at hchecked
  obtain ⟨release, hmem, hpath, hname, hversion⟩ | ⟨other, -, -, hpath, -⟩ :=
    Core.listedAt_cases hchecked.older hlisted
  · have hpromoted := Queue.promoted_of_call h.reachable h.sha256 (hsuffix.subset hmem)
    rw [Core.appRoleName_injective hname h.named] at hpromoted
    refine ⟨release, hpath, hversion.symm, fun payload hverified => ?_⟩
    have hsum : check.ports.sha256 payload = digest.sum artifact := sum_of_verified hverified
    have hsame : out.sha256 payload = out.sha256 artifact := by
      rw [h.agree.sha256, h.agree.sha256, ← hsum, h.agree.sum]
    rwa [hsame]
  · exact absurd hpath.symm (key.path_ne_pointerPath other.channelKey)

end Supplying

theorem resists_editor {raw : Bytes}
    (h : digests.sum raw = digests.sum (render editorPointer.toJson)) :
    raw = render editorPointer.toJson := by
  have hknown : ∀ row ∈ knownDigests,
      row.2 = digests.sum (render editorPointer.toJson) → row.1 = render editorPointer.toJson := by
    decide +kernel
  have hother : List.replicate 32 0 ≠ digests.sum (render editorPointer.toJson) := by
    decide +kernel
  cases hget : knownDigests.get raw with
  | some sum =>
    have hsum : digests.sum raw = sum := by simp [digests, hget]
    exact hknown _ (Table.mem_of_get hget) (hsum.symm.trans h)
  | none =>
    have hsum : digests.sum raw = List.replicate 32 0 := by simp [digests, hget]
    exact absurd (hsum.symm.trans h) hother

theorem supplying_editor : ∃ c root, Queue.suppliedEditor = some c ∧
    Supplying lastInterchange encoding fourKeys digests bytePayloads Queue.builtPorts ⟨1000, []⟩
      (fun _ => "") editorKey.channelKey "app-editor" root lostKey SignedLast c editorInstalled
      releaseCheck := by
  obtain ⟨c, hc, hcalls, hlast⟩ := Queue.suppliedEditor_calls
  obtain ⟨root, hroot, hcustody⟩ := custody_editor
  have hmade : ∀ key, .setCurrent key ∈ c.store.calls → key = editorKey := by
    intro key hmem
    rw [hcalls] at hmem
    simpa using hmem
  have hpointer : ∀ {key pointer}, .setCurrent key ∈ c.store.calls →
      CurrentRelease.make key.path key.version = .ok pointer → editorPointer = pointer := by
    intro key pointer hmem hmake
    obtain rfl := hmade key hmem
    exact Except.ok.inj (make_editorPointer.symm.trans hmake)
  have hloads : ReadsPointers bytePayloads releasePorts c.store.calls := by
    intro key pointer hmem hmake
    obtain rfl := hpointer hmem hmake
    dsimp only [releasePorts, bytePayloads]
    exact if_pos rfl
  have hsigns : SignsFiles lastInterchange encoding root "editor" "app-editor" lostKey SignedLast
      c.store.session.dir := by
    intro top threshold keys md htop hfind hmade
    obtain ⟨-, -, hfound⟩ := (topMade_editor hroot).2 top htop
    obtain ⟨rfl, rfl⟩ := Prod.mk.inj (Option.some.inj (hfind.symm.trans hfound))
    obtain ⟨-, row, hrow, hown, hread⟩ := ownMade_editor hmade
    have hfile : ∀ row ∈ lastFiles, row.2.signatures = [ownKey.1] →
        lastFiles.get "3.app-editor.json" = some row.2 := by
      decide +kernel
    exact ⟨3, row.2, Core.toDict encoding row.2, hlast.trans (hfile row hrow hown),
      (published_lastFiles row hrow).signedAs, hread⟩
  refine ⟨c, root, hc, Queue.reachable_suppliedEditor hc, Core.listsReported_pythonTuf,
    Core.refusesRollback_pythonTuf, fourKeys_distinct, by decide, by decide, fun _ => rfl, rfl,
    ⟨rfl, fun _ => rfl, fun _ => rfl⟩, hloads, fun key pointer raw hmem hmake _ hsum => ?_, hroot,
    hcustody, hsigns, fun _ => signedOnly_releasePorts⟩
  obtain rfl := hpointer hmem hmake
  exact resists_editor hsum

end DistPlatform.Client
