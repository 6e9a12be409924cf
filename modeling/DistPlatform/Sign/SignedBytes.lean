import DistPlatform.Client.Naming
import DistPlatform.Core.Closing
import DistPlatform.Sign.Worker

/-!
# The bytes that are signed (`dist_sign.worker.do_publish`)

The quarantined file is opened three times: once to check its digest, once to describe it in
the metadata and once to copy it into the repository. Each time it holds what it then holds.

## Main definitions

* `FileReads` — what the file gives at each of its reads.
* `addReleaseFrom`, `doPublish` — `add_release` and `do_publish` of such a file.
* `SignsApproved` — the entry and the payload stored under it have the approved digest.
* `FileReads.Steady` — the later reads give approved bytes too.
-/

namespace DistPlatform.Sign

open DistPlatform.Core (Outside Session Work TargetKey ReleaseInfo TargetFile RepositoryError Entry Leaves
  appRoleName payloadPath delegatedRole setCurrent edit onTargets publish)
open Ingest (PublishPayload Published)
open Registry (Source)
open Runs (System)

variable {β : Type}

/-! ## The operations -/

/-- What each look at the quarantined file finds; nothing where the file is not there. -/
structure FileReads (β : Type) where
  isFile : Bool
  /-- `_sha256_of`. -/
  checked : Option β
  /-- The length and the content, to `TargetFile.from_file`. -/
  described : Option (Nat × β)
  /-- `copyfileobj` in `store_payload`. -/
  copied : Option β
  deriving DecidableEq

/-- `quarantine_path`, under the quarantine's root. -/
def quarantineName (sha256 : String) : String := sha256 ++ ".bin"

/-- One `open(path, "rb")` and what is read then. -/
def readFile {α : Type} (sha256 : String) (found : Option α) : Work β α :=
  Process.lift (match found with
    | some content => .ok content
    | none => .error (.FileNotFoundError (quarantineName sha256)))

section Operations

variable (out : Outside β)

/-- `add_release` of a quarantined file. -/
def addReleaseFrom (key : TargetKey) (sha256 : String) (reads : FileReads β) (info : ReleaseInfo) :
    Work β String := do
  Process.lift (Fallible.ensure (info.version = key.version) (.PublicationError
    ("release info version " ++ Text.quoted info.version ++
      " does not match target path version " ++ Text.quoted key.version)))
  let role ← delegatedRole key.appId
  let (length, described) ← readFile sha256 reads.described
  let file : TargetFile := ⟨length, out.sha256 described, info.toCustom⟩
  let copied ← readFile sha256 reads.copied
  Core.storePayload key.path file copied
  edit out role (onTargets fun targets =>
    { targets with targets := targets.targets.put key.path file })
  publish out
  return key.path

/-- The release info a worker signs. -/
def workerInfo (key : TargetKey) : ReleaseInfo where
  version := key.version
  versionSafe := key.version_safe
  pctInRange := Core.hundred_inRange

/-- `do_publish`. -/
def doPublish (reads : FileReads β) (source : Source) (payload : PublishPayload) :
    Work β Published := do
  Process.lift (match missingField payload with
    | some required => .error (.PublicationError ("publish job carries no " ++ required))
    | none => .ok ())
  Process.lift (Fallible.ensure (reads.isFile = true) (.PublicationError
    ("no quarantined artifact " ++ payload.sha256)))
  let artifact ← readFile payload.sha256 reads.checked
  Process.lift (Fallible.ensure (out.sha256 artifact = payload.sha256) (.PublicationError
    ("quarantined artifact " ++ payload.sha256 ++ " now hashes to " ++ out.sha256 artifact ++
      "; refusing to sign it")))
  let role ← Process.lift ((appRoleName source.appId).mapError .ValueError)
  let s ← Process.read
  Process.lift (Fallible.ensure (role ∈ s.repo.appRoles) (.PublicationError (source.appId ++
    " has no delegated role in the published metadata; the ceremony has not happened")))
  let key ← Process.lift ((TargetKey.make source.appId source.channel source.platform source.arch
    payload.version payload.filename).mapError .ValueError)
  let _ ← addReleaseFrom out key payload.sha256 reads (workerInfo key)
  let pointer ← setCurrent out key
  return ⟨key.path, pointer, key.version, payload.sha256⟩

end Operations

/-- A file that stays as it is throughout. -/
def FileReads.still (out : Outside β) (content : β) : FileReads β :=
  ⟨true, some content, some (out.length content, content), some content⟩

/-- Of such a file, it is the release of one payload. -/
theorem addReleaseFrom_still (out : Outside β) (key : TargetKey) (sha256 : String) (content : β)
    (info : ReleaseInfo) :
    addReleaseFrom out key sha256 (.still out content) info =
      Core.addRelease out key content info := by
  unfold addReleaseFrom Core.addRelease Core.publishTarget
  simp only [Process.bind_assoc]
  rfl

/-! ## What is left in the repository -/

/-- The role of the application lists the path, and the entry and the payload stored under it
have the approved digest. -/
def SignsApproved (out : Outside β) (s : Session β) (appId path sha256 : String) : Prop :=
  ∃ role file content, appRoleName appId = .ok role ∧ Entry s role path file ∧
    file.sha256 = sha256 ∧
    s.dir.payloads.get (payloadPath path file.sha256) = some content ∧ out.sha256 content = sha256

/-- The file is described and copied with approved bytes. -/
structure FileReads.Steady (reads : FileReads β) (out : Outside β) (sha256 : String) : Prop where
  described : ∀ length content, reads.described = some (length, content) →
    out.sha256 content = sha256
  copied : ∀ content, reads.copied = some content → out.sha256 content = sha256

/-- The role lists what was described, over what was copied. -/
structure Holds (out : Outside β) (reads : FileReads β) (role path : String) (s : Session β) :
    Prop where
  entry : ∃ length described copied file, reads.described = some (length, described) ∧
    reads.copied = some copied ∧ file.sha256 = out.sha256 described ∧ Entry s role path file ∧
    s.dir.payloads.get (payloadPath path file.sha256) = some copied

section Steps

variable {out : Outside β} {reads : FileReads β} {s s' : Session β} {role path : String}

theorem ne_of_appRole (hrole : Core.AppRole role) :
    role ∉ [Core.SNAPSHOT, Core.TIMESTAMP] := by
  simpa using ⟨hrole.ne (by decide), hrole.ne (by decide)⟩

theorem readFile_ends {α γ : Type} {sha256 : String} {found : Option α}
    {f : α → Work β γ} {Q : γ → Session β → Prop}
    (h : ∀ content, found = some content →
      (f content).Ends s Q (fun _ _ => True) (fun _ => True)) :
    (readFile sha256 found >>= f).Ends s Q (fun _ _ => True) (fun _ => True) := by
  cases found with
  | none => exact .lift_bind (fun _ _ => trivial) fun _ hnone => by cases hnone
  | some content =>
    refine .lift_bind (fun _ _ => trivial) fun content' hcontent => ?_
    obtain rfl := Except.ok.inj hcontent
    exact h content rfl

theorem delegatedRole_ends (appId : String) :
    (delegatedRole appId : Work β String).Ends s
      (fun role s' => s' = s ∧ appRoleName appId = .ok role)
      (fun _ _ => True) (fun _ => True) := by
  refine .lift_bind (fun _ _ => trivial) fun role hrole => .read_bind ?_
  refine .lift_bind (fun _ _ => trivial) fun _ _ => .pure ⟨rfl, ?_⟩
  exact Fallible.mapError_eq_ok.mp hrole

/-- A release leaves its entry over its payload. -/
theorem addReleaseFrom_ends (key : TargetKey) (sha256 : String) (info : ReleaseInfo) :
    (addReleaseFrom out key sha256 reads info).Ends s
      (fun _ s' => ∃ role, appRoleName key.appId = .ok role ∧ Holds out reads role key.path s')
      (fun _ _ => True) (fun _ => True) := by
  refine .lift_bind (fun _ _ => trivial) fun _ _ => .bind (delegatedRole_ends key.appId) ?_
  rintro role s₁ ⟨rfl, hrole⟩
  have happ : Core.AppRole role := ⟨key.appId, hrole⟩
  refine readFile_ends fun description hdescribed => ?_
  obtain ⟨length, described⟩ := description
  refine readFile_ends fun copied hcopied => ?_
  let file : TargetFile := ⟨length, out.sha256 described, info.toCustom⟩
  refine .bind (Q := fun _ s' =>
    s'.dir.payloads.get (payloadPath key.path file.sha256) = some copied)
    (.write trivial (Table.get_put_self _ _ _)) ?_
  intro _ s₂ hstored
  refine .bind (Core.listing_ends key.path file) ?_
  rintro - s₃ ⟨-, hpayloads, hentry, -⟩
  refine .bind Core.publish_leaves ?_
  rintro - s₄ ⟨hleaves, hpayloads'⟩
  exact .pure ⟨role, hrole, ⟨length, described, copied, file, hdescribed, hcopied, rfl,
    hleaves.entry (ne_of_appRole happ) hentry, by rw [hpayloads', hpayloads, hstored]⟩⟩

/-- Another target is listed and stored elsewhere. -/
theorem Holds.other (h : Holds out reads role path s) {s₁ : Session β} {other : String}
    (hne : other ≠ path) {content : β}
    (hpayloads : s₁.dir.payloads =
      s.dir.payloads.put (payloadPath other (out.sha256 content)) content)
    (hentries : ∀ file, Entry s role path file → Entry s₁ role path file) :
    Holds out reads role path s₁ := by
  obtain ⟨length, described, copied, file, hdescribed, hcopied, hsha, hentry, hget⟩ := h.entry
  refine ⟨length, described, copied, file, hdescribed, hcopied, hsha, hentries _ hentry, ?_⟩
  rw [hpayloads, Table.get_put_of_ne _ _ ?_, hget]
  intro heq
  rw [hsha] at heq
  exact hne (Core.path_of_payloadPath_sha256 out heq).symm

/-- The pointer leaves the release it names as it is. -/
theorem setCurrent_ends (key : TargetKey) (h : Holds out reads role key.path s)
    (happ : appRoleName key.appId = .ok role) :
    (setCurrent out key).Ends s
      (fun pointer s' => pointer = key.channelKey.pointerPath ∧ Holds out reads role key.path s')
      (fun _ _ => True) (fun _ => True) := by
  refine .bind (delegatedRole_ends key.appId) ?_
  rintro role' s₁ ⟨rfl, hrole⟩
  obtain rfl : role = role' := Except.ok.inj (happ.symm.trans hrole)
  refine .read_bind (.lift_bind (fun _ _ => trivial) fun published _ => ?_)
  split
  next targets _ =>
    refine .lift_bind (fun _ _ => trivial) fun _ _ => .lift_bind (fun _ _ => trivial) fun pointer _ => ?_
    let content := out.dumps pointer.toJson
    let file := Core.targetFile out content (Core.pointerInfo key)
    have hne : key.channelKey.pointerPath ≠ key.path :=
      (key.path_ne_pointerPath key.channelKey).symm
    refine .bind (Q := fun _ s' => Holds out reads role key.path s') ?_ fun _ _ hs => .pure ⟨rfl, hs⟩
    refine .bind (Q := fun _ s' => Holds out reads role key.path s')
      (.write trivial (h.other hne rfl fun _ hentry => hentry)) ?_
    intro _ s₂ h₂
    refine .bind (Core.listing_ends key.channelKey.pointerPath file) ?_
    rintro - s₃ ⟨-, hpayloads, -, hkept⟩
    refine Core.publish_leaves.mono ?_ (fun _ _ h => h) fun _ h => h
    rintro - s₄ ⟨hleaves, hpayloads'⟩
    obtain ⟨length, described, copied, listed, hdescribed, hcopied, hsha, hentry, hget⟩ := h₂.entry
    exact ⟨length, described, copied, listed, hdescribed, hcopied, hsha,
      hleaves.entry (ne_of_appRole ⟨key.appId, happ⟩) (hkept _ _ hne.symm hentry),
      by rw [hpayloads', hpayloads, hget]⟩
  · exact .raise trivial

/-- A publication that returns leaves what was described listed over what was copied. -/
theorem doPublish_ends (source : Source) (payload : PublishPayload) :
    (doPublish out reads source payload).Ends s
      (fun published s' => ∃ role, appRoleName source.appId = .ok role ∧
        Holds out reads role published.target s')
      (fun _ _ => True) (fun _ => True) := by
  refine .lift_bind (fun _ _ => trivial) fun _ _ => .lift_bind (fun _ _ => trivial) fun _ _ => ?_
  refine readFile_ends fun artifact _ => .lift_bind (fun _ _ => trivial) fun _ _ => ?_
  refine .lift_bind (fun _ _ => trivial) fun role hrole => .read_bind ?_
  refine .lift_bind (fun _ _ => trivial) fun _ _ => .lift_bind (fun _ _ => trivial) fun key hkey => ?_
  have happ : key.appId = source.appId := (Core.targetKey_make_eq_ok (Fallible.mapError_eq_ok.mp hkey)).1
  refine .bind (addReleaseFrom_ends key payload.sha256 (workerInfo key)) ?_
  rintro - s₁ ⟨role', hrole', hholds⟩
  refine .bind (setCurrent_ends key hholds hrole') ?_
  rintro pointer s₂ ⟨-, hholds'⟩
  exact .pure ⟨role', happ ▸ hrole', hholds'⟩

end Steps

/-! ## A publication of the editor -/

def bakerySource : Source where
  id := 1
  appId := "editor"
  forge := .GITHUB
  project := "acme/editor"
  apiBase := ""
  projectUrl := ""
  status := .ACTIVE
  critical := false
  assetName := ""
  tagPrefix := "v"
  requireTagRefPrefix := ""
  maxAssetBytes := 0
  channel := "stable"
  platform := "linux"
  arch := "x64"
  workflowUri := none
  oidcIssuer := none
  repositoryId := none
  repositoryOwnerId := none
  runnerEnvironment := ""
  builderId := none
  builderKeyid := none
  builderPublicKeyPem := none
  attestationAsset := ""
  lastError := none

def bakeryPayload : PublishPayload :=
  ⟨"85baff541a93d1c5024020c40c79890a3123993997761a4f8ec7010c0c363d14", "1.0", "editor.zip", "v1.0"⟩

/-- A repository to which the editor has been added, and the instance that did it. -/
def editorSession : Option (Session String) :=
  (System.exec (Core.next Core.textPayloads)
    [.start Core.fiveKeys, .call .initialise 9, .call (.addApp "editor" false) 9] .empty).bind
      fun w => w.repo.map fun repo => ⟨repo, w.dir⟩

/-- Replaced between its check and its copy. -/
def swapped : FileReads String :=
  ⟨true, some "editor 1.0", some (10, "editor 1.0"), some "editor 2.0"⟩

def publishEditor (reads : FileReads String) : Option (Published × Session String) :=
  editorSession.bind fun s =>
    match doPublish Core.textPayloads reads bakerySource bakeryPayload s 20 with
    | .returned published s' _ => some (published, s')
    | _ => none

/-! ## The main result -/

theorem Holds.approved_iff {out : Outside β} {reads : FileReads β} {s : Session β}
    {role appId path sha256 : String} (hrole : appRoleName appId = .ok role)
    (h : Holds out reads role path s) :
    SignsApproved out s appId path sha256 ↔ reads.Steady out sha256 := by
  obtain ⟨length, described, copied, file, hdescribed, hcopied, hsha, hentry, hget⟩ := h.entry
  constructor
  · rintro ⟨role', file', content, hrole', hentry', happroved, hget', hcontent⟩
    obtain rfl : role = role' := Except.ok.inj (hrole.symm.trans hrole')
    obtain rfl := hentry.unique hentry'
    obtain rfl : copied = content := Option.some.inj (hget.symm.trans hget')
    refine ⟨fun length' content h => ?_, fun content h => ?_⟩
    · obtain rfl : described = content :=
        congrArg Prod.snd (Option.some.inj (hdescribed.symm.trans h))
      rw [← hsha, happroved]
    · obtain rfl : copied = content := Option.some.inj (hcopied.symm.trans h)
      exact hcontent
  · intro hsteady
    exact ⟨role, file, copied, hrole, hentry, hsha.trans (hsteady.described _ _ hdescribed), hget,
      hsteady.copied _ hcopied⟩

/-- After a publication that returned, the signed entry and the stored payload have the approved
digest exactly where the file was described and copied with approved bytes. -/
theorem signsApproved_iff {out : Outside β} {reads : FileReads β} {source : Source}
    {payload : PublishPayload} {s s' : Session β} {published : Published} {n rest : Nat}
    (h : doPublish out reads source payload s n = .returned published s' rest) :
    SignsApproved out s' source.appId published.target payload.sha256 ↔
      reads.Steady out payload.sha256 := by
  have hends := (doPublish_ends source payload : (doPublish out reads source payload).Ends s _ _ _) n
  rw [h] at hends
  obtain ⟨role, hrole, hholds⟩ := hends
  exact hholds.approved_iff hrole

theorem publishEditor_eq_some {reads : FileReads String} {result : Published × Session String}
    (h : publishEditor reads = some result) :
    ∃ s rest, editorSession = some s ∧
      doPublish Core.textPayloads reads bakerySource bakeryPayload s 20 =
        .returned result.1 result.2 rest := by
  obtain ⟨s, hs, hmatch⟩ := Option.bind_eq_some_iff.mp h
  refine ⟨s, ?_⟩
  split at hmatch
  next rest hreturned =>
    obtain rfl := Option.some.inj hmatch
    exact ⟨_, hs, hreturned⟩
  · cases hmatch

/-- The file of the editor's release stays as it is. -/
theorem signsApproved_iff_still :
    ∃ result, publishEditor (.still Core.textPayloads "editor 1.0") = some result ∧
      (SignsApproved Core.textPayloads result.2 bakerySource.appId result.1.target
          bakeryPayload.sha256 ↔
        (FileReads.still Core.textPayloads "editor 1.0").Steady Core.textPayloads
          bakeryPayload.sha256) := by
  have hrun : (publishEditor (.still Core.textPayloads "editor 1.0")).isSome = true := by
    decide +kernel
  obtain ⟨result, hresult⟩ := Option.isSome_iff_exists.mp hrun
  obtain ⟨s, rest, -, hreturned⟩ := publishEditor_eq_some hresult
  exact ⟨result, hresult, signsApproved_iff hreturned⟩

/-- The digest of one file is signed, and the bytes of another are stored under it. -/
theorem swapped_signed :
    ∃ result, publishEditor swapped = some result ∧
      ¬ SignsApproved Core.textPayloads result.2 bakerySource.appId result.1.target
          bakeryPayload.sha256 := by
  have hrun : (publishEditor swapped).isSome = true := by decide +kernel
  obtain ⟨result, hresult⟩ := Option.isSome_iff_exists.mp hrun
  obtain ⟨s, rest, -, hreturned⟩ := publishEditor_eq_some hresult
  have hends := (doPublish_ends bakerySource bakeryPayload :
    (doPublish Core.textPayloads swapped bakerySource bakeryPayload).Ends s _ _ _) 20
  rw [hreturned] at hends
  obtain ⟨role, hrole, hholds⟩ := hends
  refine ⟨result, hresult, fun happroved => ?_⟩
  have := ((hholds.approved_iff hrole).mp happroved).copied _ rfl
  exact absurd this (by decide +kernel)

end DistPlatform.Sign
