import DistPlatform.Client.Delivery
import DistPlatform.Tuf.Lifetime

/-!
# A verifier handle among lost keys (`dist-core-rs/src/verifier.rs`)

The four `update_*` calls of a handle in any order, with any bytes, from an embedded root. The
platform gives every application keys of its own so that a lost key costs no other application;
this module says what has to be lost before a path of an application is answered with something
its owners did not sign.

## Main definitions

* `VerifierCall`, `TufVerifier.accept` — one call, with what is left of the handle.
* `handle` — the runs of a handle.
* `Custody` — which keys are lost, and what the owners of the others sign.
-/

namespace DistPlatform.Client

open DistPlatform
open DistPlatform.Tuf (Database Feed Interchange KeyId MetadataPath PublicKey RootMetadata Session
  TargetsMetadata Time authorizedKeys lifetime MadeBy SignedOnly Withstands)
open Runs

/-! ## The calls -/

/-- A call that gives the verifier a file. -/
inductive VerifierCall
  | updateTimestamp (raw : Bytes)
  | updateSnapshot (raw : Bytes)
  | updateTargets (raw : Bytes)
  | updateDelegatedTargets (role : String) (raw : Bytes)
  deriving DecidableEq, Repr

namespace VerifierCall

/-- The role that a rejection names. -/
def role : VerifierCall → Role
  | .updateTimestamp _ => .Timestamp
  | .updateSnapshot _ => .Snapshot
  | .updateTargets _ => .Targets
  | .updateDelegatedTargets _ _ => .Delegated

def raw : VerifierCall → Bytes
  | .updateTimestamp raw | .updateSnapshot raw | .updateTargets raw
  | .updateDelegatedTargets _ raw => raw

/-- What the database is fed; a role that is no path is refused before that. -/
def feed (now : Time) : VerifierCall → Except VerifyError Feed
  | .updateTimestamp raw => .ok (.timestamp now raw)
  | .updateSnapshot raw => .ok (.snapshot now raw)
  | .updateTargets raw => .ok (.targets now raw)
  | .updateDelegatedTargets role raw =>
    match MetadataPath.new role with
    | .error _ => .error (.Rejected .Delegated "")
    | .ok role => .ok (.delegatedTargets now .targets role raw)

theorem raw_of_feed {call : VerifierCall} {now : Time} {f : Feed} (h : call.feed now = .ok f) :
    f.raw = call.raw := by
  cases call with
  | updateTimestamp raw => exact Except.ok.inj h ▸ rfl
  | updateSnapshot raw => exact Except.ok.inj h ▸ rfl
  | updateTargets raw => exact Except.ok.inj h ▸ rfl
  | updateDelegatedTargets role raw =>
    simp only [feed] at h
    split at h
    · cases h
    · exact Except.ok.inj h ▸ rfl

end VerifierCall

section Calls

variable (ic : Interchange)

/-- What the call feeds, if the clock can be read and the role is one. -/
def TufVerifier.offered (verifier : TufVerifier) (systemTime : Int) (call : VerifierCall) :
    Except VerifyError Feed := do
  call.feed (← verifier.now systemTime)

/-- `impl Verifier for TufVerifier`, on `&mut self`. -/
def TufVerifier.accept (verifier : TufVerifier) (systemTime : Int) (call : VerifierCall) :
    Except VerifyError Unit × TufVerifier :=
  match verifier.offered systemTime call with
  | .error e => (.error e, verifier)
  | .ok f =>
    let fed := verifier.database.feed ic f
    (fed.1.mapError fun _ => .Rejected call.role "", { verifier with database := fed.2 })

/-- A verifier, with everything its database was fed. -/
structure Handle where
  verifier : TufVerifier
  fed : List Feed

def Handle.session (h : Handle) : Session := ⟨h.verifier.database, h.fed⟩

def Handle.next (h : Handle) (systemTime : Int) (call : VerifierCall) : Handle where
  verifier := (h.verifier.accept ic systemTime call).2
  fed := (h.verifier.offered systemTime call).toOption.toList ++ h.fed

/-- The runs of a handle from an embedded root. -/
def handle (root : Bytes) : System Handle (Int × VerifierCall) where
  start h := Database.fromTrustedRoot ic root = .ok h.verifier.database ∧ h.fed = []
  step h call h' := h' = h.next ic call.1 call.2

end Calls

/-! ## The update check is a run of the handle -/

section Agreement

variable {ic : Interchange} {verifier verifier' : TufVerifier} {systemTime : Int} {raw : Bytes}

/-- An update that succeeds is the call that succeeds. -/
theorem accept_of_feed {call : VerifierCall}
    {update : Time → Database → Bytes → Except VerifyError Database}
    (hupdate : ∀ now db', update now verifier.database raw = .ok db' →
      ∃ f, call.feed now = .ok f ∧ verifier.database.feed ic f = (.ok (), db'))
    (h : feed verifier systemTime update raw = .ok verifier') :
    verifier.accept ic systemTime call = (.ok (), verifier') := by
  unfold feed at h
  split at h
  next db' hdb =>
    obtain ⟨now, hnow, hdb⟩ := Fallible.bind_eq_ok.mp hdb
    obtain ⟨f, hf, hfed⟩ := hupdate now db' hdb
    have hoffered : verifier.offered systemTime call = .ok f :=
      Fallible.bind_eq_ok.mpr ⟨now, hnow, hf⟩
    rw [← Except.ok.inj h]
    simp only [TufVerifier.accept, hoffered, hfed]
    rfl
  · cases h

theorem accept_of_timestamp
    (h : feed verifier systemTime (tufUpdates ic).timestamp raw = .ok verifier') :
    verifier.accept ic systemTime (.updateTimestamp raw) = (.ok (), verifier') :=
  accept_of_feed (fun _ _ hdb =>
    ⟨_, rfl, Database.updateTimestamp_iff_feed.mp (Fallible.mapError_eq_ok.mp hdb)⟩) h

theorem accept_of_snapshot
    (h : feed verifier systemTime (tufUpdates ic).snapshot raw = .ok verifier') :
    verifier.accept ic systemTime (.updateSnapshot raw) = (.ok (), verifier') :=
  accept_of_feed (fun _ _ hdb => ⟨_, rfl, Database.feed_snapshot.trans
    (Database.settle_eq_ok.mpr (Fallible.mapError_eq_ok.mp hdb))⟩) h

theorem accept_of_targets
    (h : feed verifier systemTime (tufUpdates ic).targets raw = .ok verifier') :
    verifier.accept ic systemTime (.updateTargets raw) = (.ok (), verifier') :=
  accept_of_feed (fun _ _ hdb => ⟨_, rfl, Database.feed_targets.trans
    (Database.settle_eq_ok.mpr (Fallible.mapError_eq_ok.mp hdb))⟩) h

theorem accept_of_delegated {role : String}
    (h : feed verifier systemTime (delegatedUpdate (tufUpdates ic) role) raw = .ok verifier') :
    verifier.accept ic systemTime (.updateDelegatedTargets (cString role) raw) =
      (.ok (), verifier') := by
  refine accept_of_feed (fun now db' hdb => ?_) h
  unfold delegatedUpdate at hdb
  split at hdb
  · cases hdb
  next path hpath =>
    refine ⟨.delegatedTargets now .targets path raw, ?_, ?_⟩
    · simp only [VerifierCall.feed, hpath]
    · rw [Database.feed_delegatedTargets, Database.settle_eq_ok,
        Database.updateDelegatedTargetsOf_targets]
      exact Fallible.mapError_eq_ok.mp hdb

end Agreement

section Runs

variable {ic : Interchange} {root : Bytes} {h : Handle}

/-- Everything the handle was fed comes from there. -/
def Handle.FedFrom (h : Handle) (source : Bytes → Prop) : Prop := ∀ f ∈ h.fed, source f.raw

theorem reachable_accept {verifier' : TufVerifier} {systemTime : Int} {call : VerifierCall}
    {source : Bytes → Prop} (hreach : (handle ic root).Reachable h) (hfed : h.FedFrom source)
    (haccept : h.verifier.accept ic systemTime call = (.ok (), verifier'))
    (hsource : source call.raw) :
    ∃ h', (handle ic root).Reachable h' ∧ h'.FedFrom source ∧ h'.verifier = verifier' := by
  refine ⟨_, .step (a := (systemTime, call)) hreach rfl, fun f hf => ?_,
    congrArg Prod.snd haccept⟩
  obtain hnew | hold := List.mem_append.mp hf
  · cases hoffered : h.verifier.offered systemTime call with
    | error e => simp [hoffered, Except.toOption] at hnew
    | ok offered =>
      obtain ⟨now, -, hcall⟩ := Fallible.bind_eq_ok.mp hoffered
      simp only [hoffered, Except.toOption, Option.toList_some, List.mem_singleton] at hnew
      rw [hnew, VerifierCall.raw_of_feed hcall]
      exact hsource
  · exact hfed f hold

/-- What the mirror answers to some request. -/
def Ports.Answers (ports : Ports) (raw : Bytes) : Prop := ∃ name, ports.fetch name = .ok raw

theorem answers_of_fetch {ports : Ports} {name : String} {raw : Bytes}
    (h : ports.fetch name = .ok raw) : ports.Answers raw :=
  ⟨name, h⟩

/-- Whatever the mirror answers, the verifier of a check is one that a handle can get to. -/
theorem reachable_of_acceptMetadata {ports : Ports} {channel : Channel} {clock : Clock}
    {systemTime : Int} {verifier : TufVerifier}
    (haccept : acceptMetadata ports (tufUpdates ic) channel root clock systemTime =
      .ok (some verifier)) :
    ∃ h, (handle ic root).Reachable h ∧ h.FedFrom ports.Answers ∧ h.verifier = verifier := by
  obtain ⟨v₀, raw₁, v₁, _, raw₂, v₂, _, raw₃, v₃, _, raw₄, hboot, hraw₁, hfed₁, -, hraw₂, hfed₂, -,
    hraw₃, hfed₃, -, hraw₄, hfed₄⟩ := acceptMetadata_eq_some.mp haccept
  have hstart : Database.fromTrustedRoot ic root = .ok v₀.database := by
    unfold bootstrap at hboot
    split at hboot
    next db hdb =>
      rw [← Except.ok.inj hboot]
      exact Fallible.mapError_eq_ok.mp hdb
    · cases hboot
  have hreach₀ : (handle ic root).Reachable ⟨v₀, []⟩ := .start ⟨hstart, rfl⟩
  obtain ⟨h₁, hreach₁, hfrom₁, rfl⟩ := reachable_accept hreach₀ (fun _ h => by cases h)
    (accept_of_timestamp hfed₁) (answers_of_fetch hraw₁)
  obtain ⟨h₂, hreach₂, hfrom₂, rfl⟩ := reachable_accept hreach₁ hfrom₁
    (accept_of_snapshot hfed₂) (answers_of_fetch hraw₂)
  obtain ⟨h₃, hreach₃, hfrom₃, rfl⟩ := reachable_accept hreach₂ hfrom₂
    (accept_of_targets hfed₃) (answers_of_fetch hraw₃)
  exact reachable_accept hreach₃ hfrom₃ (accept_of_delegated hfed₄) (answers_of_fetch hraw₄)

/-! ## A run of the handle is a run of its database -/

/-- The handle never offers another root, and names the top-level targets as every parent. -/
inductive Pinned : Feed → Prop
  | timestamp (now : Time) (raw : Bytes) : Pinned (.timestamp now raw)
  | snapshot (now : Time) (raw : Bytes) : Pinned (.snapshot now raw)
  | targets (now : Time) (raw : Bytes) : Pinned (.targets now raw)
  | delegated (now : Time) (role : MetadataPath) (raw : Bytes) :
      Pinned (.delegatedTargets now .targets role raw)

theorem pinned_of_feed {call : VerifierCall} {now : Time} {f : Feed}
    (h : call.feed now = .ok f) : Pinned f := by
  cases call with
  | updateTimestamp raw => exact Except.ok.inj h ▸ .timestamp now raw
  | updateSnapshot raw => exact Except.ok.inj h ▸ .snapshot now raw
  | updateTargets raw => exact Except.ok.inj h ▸ .targets now raw
  | updateDelegatedTargets role raw =>
    simp only [VerifierCall.feed] at h
    split at h
    · cases h
    next path _ => exact Except.ok.inj h ▸ .delegated now path raw

/-- The database of a handle lives as any database does, on what a handle may feed it. -/
theorem lifetime_of_handle (hreach : (handle ic root).Reachable h) :
    (lifetime ic root).Reachable h.session ∧ ∀ f ∈ h.fed, Pinned f := by
  induction hreach with
  | start hstart =>
    refine ⟨.start ⟨hstart.1, hstart.2⟩, fun f hf => ?_⟩
    rw [hstart.2] at hf
    cases hf
  | @step h call h' _ hstep ih =>
    obtain rfl := hstep
    cases hoffered : h.verifier.offered call.1 call.2 with
    | error e =>
      have hsame : h.next ic call.1 call.2 = h := by
        simp only [Handle.next, TufVerifier.accept, hoffered]
        rfl
      rw [hsame]
      exact ih
    | ok f =>
      obtain ⟨now, -, hf⟩ := Fallible.bind_eq_ok.mp hoffered
      have hnext : (h.next ic call.1 call.2).session = h.session.next ic f := by
        simp only [Handle.next, Handle.session, TufVerifier.accept, hoffered]
        rfl
      refine ⟨.step ih.1 hnext, fun f' hf' => ?_⟩
      simp only [Handle.next, hoffered] at hf'
      obtain rfl | hf' := List.mem_cons.mp hf'
      · exact pinned_of_feed hf
      · exact ih.2 f' hf'

end Runs

/-! ## Lost keys -/

section Lost

variable (ic : Interchange) (root : RootMetadata) (appId : String) (lost : Finset KeyId)
  (made : KeyId → List UInt8 → Prop)

/-- The keys that may sign the top-level targets. -/
def topKeys : List PublicKey := authorizedKeys root.keys root.targets.keyIds

/-- The keys of the top-level targets and of one application withstand what is lost, whatever
becomes of the others; and the owners sign what the server writes: at the top a delegation for
each application and no target, and for the application no delegation of its own. -/
structure Custody : Prop where
  top : Withstands lost root.targets.threshold (topKeys root)
  shape : ∀ md, MadeBy ic lost made (topKeys root) md →
    md.targets = [] ∧ ∃ apps, HasAppDelegations md apps
  app : ∀ md threshold keys, MadeBy ic lost made (topKeys root) md →
    Database.findDelegation md (appRole appId) = some (threshold, keys) →
      Withstands lost threshold keys
  flat : ∀ top threshold keys md, MadeBy ic lost made (topKeys root) top →
    Database.findDelegation top (appRole appId) = some (threshold, keys) →
      MadeBy ic lost made keys md → md.delegations = none

variable {ic root appId lost made} {first : Bytes} {h : Handle}

theorem trustedRoot_of_pinned {fed : List Feed} {root' : RootMetadata}
    (hpinned : ∀ f ∈ fed, Pinned f) (hsucceeds : Tuf.Succeeds ic fed root root') :
    root' = root := by
  cases hsucceeds with
  | first => rfl
  | next _ hfed => cases hpinned _ hfed

/-- The trusted top-level targets are what the owners of the top-level keys signed. -/
theorem Custody.topMade (hcustody : Custody ic root appId lost made) {fed : List Feed}
    (honly : ∀ f ∈ fed, SignedOnly ic lost made f.raw) {md : TargetsMetadata}
    (hmd : Tuf.Authorised ic fed root none md) : MadeBy ic lost made (topKeys root) md := by
  cases hmd with
  | top hfed hverified => exact Tuf.madeBy_of_verified hverified hcustody.top (honly _ hfed)

/-- The trusted metadata of the application is what the owners of its keys signed. -/
theorem Custody.appMade (hcustody : Custody ic root appId lost made) {fed : List Feed}
    (hpinned : ∀ f ∈ fed, Pinned f) (honly : ∀ f ∈ fed, SignedOnly ic lost made f.raw)
    {md : TargetsMetadata} (hmd : Tuf.Authorised ic fed root (some (appRole appId)) md) :
    ∃ top threshold keys, MadeBy ic lost made (topKeys root) top ∧
      Database.findDelegation top (appRole appId) = some (threshold, keys) ∧
      MadeBy ic lost made keys md := by
  cases hmd with
  | delegated habove hfind hfed hverified =>
    cases hpinned _ hfed
    have htop := hcustody.topMade honly habove
    exact ⟨_, _, _, htop, hfind, Tuf.madeBy_of_verified hverified
      (hcustody.app _ _ _ htop hfind) (honly _ hfed)⟩

/-- An answer to a path of the application is listed by metadata that the owners of the
application's keys signed, under a delegation that the owners of the top-level keys signed:
however many other keys are lost, and whatever was fed in whatever order. -/
theorem target_signed_by_app (hreach : (handle ic first).Reachable h)
    (hroot : Tuf.Root ic first root) (hcustody : Custody ic root appId lost made)
    (honly : ∀ f ∈ h.fed, SignedOnly ic lost made f.raw) {systemTime : Int} {path : TargetPath}
    (hpath : Text.firstSegment path.asStr = appId.toList) {info : TargetInfo}
    (htarget : h.verifier.target systemTime path = .ok info) :
    ∃ tufPath description top threshold keys md,
      Tuf.TargetPath.new path.asStr = .ok tufPath ∧ targetInfo description = .ok info ∧
      MadeBy ic lost made (topKeys root) top ∧
      Database.findDelegation top (appRole appId) = some (threshold, keys) ∧
      MadeBy ic lost made keys md ∧ md.targets.lookup tufPath = some description := by
  obtain ⟨hlife, hpinned⟩ := lifetime_of_handle hreach
  obtain ⟨root', hroot', hvouched⟩ := Tuf.vouched_of_reachable hlife
  obtain rfl : root' = root := by
    have := Except.ok.inj (hroot'.symm.trans hroot)
    exact congrArg Database.trustedRoot this
  have hsame := trustedRoot_of_pinned hpinned hvouched.root
  have htops := hvouched.targets
  have hroles := hvouched.delegated
  rw [hsame] at htops hroles
  obtain ⟨description, hdesc, hinfo⟩ := TufVerifier.target_eq_ok.mp htarget
  obtain ⟨now, tufPath, -, htuf, hfound⟩ := description_eq_ok.mp hdesc
  obtain ⟨top, hfresh, hsearch⟩ := Database.targetDescription_eq_ok.mp hfound
  have htop := hcustody.topMade honly (htops top hfresh.targets)
  obtain ⟨hnone, apps, hshape⟩ := hcustody.shape top htop
  obtain hlisted | ⟨delegations, chain, md, -, hchain, hhead, hlisted⟩ :=
    listedFor_of_searchFrom htuf hshape hpath hsearch
  · rw [hnone] at hlisted
    cases hlisted
  · have hloaded : ∀ {d : Tuf.Delegation} {md}, d.role = appRole appId →
        h.verifier.database.trustedDelegations.lookup d.role = some md →
        ∃ top threshold keys, MadeBy ic lost made (topKeys root') top ∧
          Database.findDelegation top (appRole appId) = some (threshold, keys) ∧
          MadeBy ic lost made keys md := fun hrole hlook =>
      hcustody.appMade hpinned honly (hroles _ _ (Table.mem_of_get (hrole ▸ hlook)))
    cases hchain with
    | last _ _ hlook =>
      obtain ⟨top', threshold, keys, htop', hfind, hmade⟩ :=
        hloaded (Option.some.inj hhead) hlook
      exact ⟨tufPath, description, top', threshold, keys, md, htuf, hinfo, htop', hfind, hmade,
        hlisted⟩
    | step _ _ hlook hchild _ =>
      -- the application's own metadata delegates no further
      obtain ⟨top', threshold, keys, htop', hfind, hmade⟩ :=
        hloaded (Option.some.inj hhead) hlook
      rw [hcustody.flat _ _ _ _ htop' hfind hmade] at hchild
      cases hchild

/-- A payload that passes has the length and the digest of the description. -/
theorem verified_payload {sha256 : Bytes → Bytes} {description : Tuf.TargetDescription}
    {info : TargetInfo} {payload : Bytes} (hinfo : targetInfo description = .ok info)
    (hverified : bindingVerifyPayload sha256 info.seen payload = .ok ()) :
    payload.length = description.length.toNat ∧
      description.hashes.lookup .Sha256 = some (sha256 payload) := by
  have hfields : info.length = description.length ∧
      description.hashes.lookup .Sha256 = some info.sha256 := by
    unfold targetInfo at hinfo
    split at hinfo
    · cases hinfo
    next digest hdigest =>
      split at hinfo
      · split at hinfo
        · rw [← Except.ok.inj hinfo]
          exact ⟨rfl, hdigest⟩
        · cases hinfo
      · cases hinfo
  have hpayload : payload.length = info.length.toNat ∧ sha256 payload = info.sha256 := by
    unfold bindingVerifyPayload verifyPayload at hverified
    split at hverified
    · cases hverified
    next hok =>
      rw [Fallible.ite_error_eq_ok, Fallible.ite_error_eq_ok, not_not, not_not] at hok
      exact ⟨hok.1, hok.2.1⟩
  rw [← hfields.1, hfields.2, hpayload.2]
  exact ⟨hpayload.1, rfl⟩

/-- A whole check, whatever the mirror answers: the release it offers is listed by metadata
that the owners of the application's keys signed, and a payload that passes for it is the one
they described. -/
theorem offer_signed_by_app {ports : Ports} {installId : String} {channel : Channel}
    {clock : Clock} {systemTime : Int} {available : Available} (hroot : Tuf.Root ic first root)
    (hid : Core.appIdMatches channel.appId = true)
    (hcustody : Custody ic root channel.appId lost made)
    (honly : ∀ raw, ports.Answers raw → SignedOnly ic lost made raw)
    (hrun : run ports (tufUpdates ic) installId channel first clock systemTime =
      .ok (some available)) :
    ∃ tufPath description top threshold keys md,
      Tuf.TargetPath.new (cString available.targetPath) = .ok tufPath ∧
      MadeBy ic lost made (topKeys root) top ∧
      Database.findDelegation top (appRole channel.appId) = some (threshold, keys) ∧
      MadeBy ic lost made keys md ∧ md.targets.lookup tufPath = some description ∧
      ∀ payload, bindingVerifyPayload ports.sha256 available.info payload = .ok () →
        payload.length = description.length.toNat ∧
          description.hashes.lookup .Sha256 = some (ports.sha256 payload) := by
  obtain ⟨verifier, haccept, hresolve⟩ := run_eq_some hrun
  obtain ⟨h, hreach, hfed, rfl⟩ := reachable_of_acceptMetadata haccept
  obtain ⟨hstarts, -, -, hbinding, -⟩ := resolveRelease_eq_some.mp (resolve_eq_some hresolve)
  obtain ⟨parsed, info, hparse, htarget, -, hseen⟩ := bindingTarget_eq_some.mp hbinding
  have hslash : '/' ∉ channel.appId.toList := fun h => (Core.appIdMatches_plain hid h).1 rfl
  have hnul : Char.ofNat 0 ∉ channel.appId.toList := fun h => by
    have := Core.appIdMatches_chars hid _ h
    revert this
    decide
  have hpath := firstSegment_of_parse hslash hnul hstarts hparse
  obtain ⟨tufPath, description, top, threshold, keys, md, htuf, hinfo, htop, hfind, hmade,
      hlisted⟩ :=
    target_signed_by_app hreach hroot hcustody (fun f hf => honly _ (hfed f hf)) hpath htarget
  rw [asStr_of_parse hparse] at htuf
  refine ⟨tufPath, description, top, threshold, keys, md, htuf, htop, hfind, hmade, hlisted,
    fun payload hpayload => verified_payload hinfo ?_⟩
  rwa [← hseen]

end Lost

/-! ## One lost key at the top -/

/-- What the owners of the keys have signed: the last file of each role. -/
def SignedLast (id : KeyId) (bytes : Bytes) : Prop :=
  ∃ row ∈ lastFiles, id ∈ row.2.signatures ∧
    bytes = render (.obj (Core.toDict encoding row.2))

def lostKey : Finset KeyId := {"74c181c7ad8a0855d4b55e44d2ba87aabdddb196832571f15f92fece332e4916"}

/-- What is signed is a file whose signed part is the document. -/
theorem signed_of_canonicalize {signed : Json} {bytes : Bytes} {id : KeyId}
    (hbytes : lastInterchange.canonicalize signed = some bytes) (hmade : SignedLast id bytes) :
    ∃ row ∈ lastFiles, id ∈ row.2.signatures ∧ signed = .obj (Core.toDict encoding row.2) := by
  have hparts : (lastFiles.map fun row => render (.obj (Core.toDict encoding row.2))).Nodup := by
    decide +kernel
  obtain ⟨found, hfound, rfl⟩ := Option.map_eq_some_iff.mp hbytes
  obtain ⟨row, hrow, rfl⟩ := List.mem_map.mp (List.mem_of_find?_eq_some hfound)
  obtain ⟨row', hrow', hid, hsame⟩ := hmade
  obtain rfl := List.inj_on_of_nodup_map hparts hrow hrow' hsame
  have heq : Json.obj (Core.toDict encoding row.2) = signed := by simpa using List.find?_some hfound
  exact ⟨row, hrow, hid, heq.symm⟩

theorem signedOnly_releasePorts {raw : Bytes} (h : releasePorts.Answers raw) :
    SignedOnly lastInterchange lostKey SignedLast raw := by
  obtain ⟨name, hfetch⟩ := h
  dsimp only [releasePorts] at hfetch
  split at hfetch
  next md hget =>
    obtain rfl := Except.ok.inj hfetch
    have hrow := Table.mem_of_get hget
    obtain ⟨-, signatures, bytes, hsigned, hbytes, hkeyIds, -⟩ := published_lastFiles _ hrow
    intro signatures' signed bytes' hsigned' hbytes' s hs key _ _ _
    obtain ⟨rfl, rfl⟩ := Prod.mk.inj (Option.some.inj (hsigned.symm.trans hsigned'))
    obtain ⟨found, hfound, rfl⟩ := Option.map_eq_some_iff.mp hbytes'
    have heq : found = .obj (Core.toDict encoding md) := by simpa using List.find?_some hfound
    exact ⟨_, hrow, hkeyIds ▸ List.mem_map_of_mem hs, congrArg render heq⟩
  next payload hget =>
    have hnone : ∀ row ∈ lastPayloads, Tuf.signedMetadata lastInterchange row.2 = none := by
      decide +kernel
    obtain rfl := Except.ok.inj hfetch
    intro signatures signed bytes hsigned
    rw [hnone _ (Table.mem_of_get hget)] at hsigned
    cases hsigned
  · cases hfetch

def editorDelegated : Tuf.Delegation where
  role := appRole "editor"
  terminating := false
  threshold := 1
  keyIds := [ownKey.1]
  paths := [⟨Core.appPathPattern "editor"⟩]

/-- The three keys signed the delegation, and the application's own key what it lists. -/
theorem targets_lastFiles {row : String × Core.Metadata} (hrow : row ∈ lastFiles)
    {md : TargetsMetadata} (hread :
      Tuf.targetsMetadata lastInterchange (.obj (Core.toDict encoding row.2)) = some md) :
    (row.2.signatures = ed25519.map (·.1) ∧ md.targets = [] ∧
        md.delegations.map (·.roles) = some [editorDelegated] ∧
        Database.findDelegation md (appRole "editor") = some (1, [⟨ownKey.1, ownKey.2⟩])) ∨
      row.2.signatures = [ownKey.1] ∧ md.delegations = none := by
  have hall : ∀ row ∈ lastFiles,
      ∀ md ∈ Tuf.targetsMetadata lastInterchange (.obj (Core.toDict encoding row.2)),
        (row.2.signatures = ed25519.map (·.1) ∧ md.targets = [] ∧
          md.delegations.map (·.roles) = some [editorDelegated] ∧
          Database.findDelegation md (appRole "editor") = some (1, [⟨ownKey.1, ownKey.2⟩])) ∨
        row.2.signatures = [ownKey.1] ∧ md.delegations = none := by
    decide +kernel
  exact hall row hrow md hread

/-- The root that the editor starts from wants two of the three keys for the targets. -/
theorem root_editor : ∃ root, Tuf.Root lastInterchange editorInstalled.root root ∧
    root.targets.threshold = 2 ∧
      (topKeys root).map (·.keyId) = ed25519.reverse.map (·.1) := by
  have hfirst : (Database.fromTrustedRoot lastInterchange editorInstalled.root).toOption.map
      (fun db => (db.trustedRoot.targets.threshold, (topKeys db.trustedRoot).map (·.keyId))) =
        some (2, ed25519.reverse.map (·.1)) := by
    decide +kernel
  obtain ⟨db, hdb, heq⟩ := Option.map_eq_some_iff.mp hfirst
  have hroot := Core.eq_ok_of_toOption hdb
  obtain ⟨root, rfl⟩ := Database.fromTrustedRoot_eq_ok hroot
  obtain ⟨hthreshold, hids⟩ := Prod.mk.inj heq
  exact ⟨root, hroot, hthreshold, hids⟩

/-- The owners of the top-level keys signed the delegation to the editor, and no target. -/
theorem topMade_editor {root : RootMetadata}
    (hroot : Tuf.Root lastInterchange editorInstalled.root root) :
    root.targets.threshold = 2 ∧ ∀ md, MadeBy lastInterchange lostKey SignedLast (topKeys root) md →
      md.targets = [] ∧ md.delegations.map (·.roles) = some [editorDelegated] ∧
        Database.findDelegation md (appRole "editor") = some (1, [⟨ownKey.1, ownKey.2⟩]) := by
  obtain ⟨first, hfirst, hthreshold, hids⟩ := root_editor
  obtain rfl : first = root :=
    congrArg Database.trustedRoot (Except.ok.inj (hfirst.symm.trans hroot))
  refine ⟨hthreshold, ?_⟩
  rintro md ⟨signed, id, bytes, hread, -, ⟨key, hkey, rfl⟩, hbytes, hmade⟩
  obtain ⟨row, hrow, hid, rfl⟩ := signed_of_canonicalize hbytes hmade
  obtain ⟨-, htop⟩ | ⟨hown, -⟩ := targets_lastFiles hrow hread
  · exact htop
  · have hmem : key.keyId ∈ ed25519.reverse.map (·.1) := hids ▸ List.mem_map_of_mem hkey
    rw [hown, List.mem_singleton] at hid
    rw [hid] at hmem
    exact absurd hmem (by decide)

/-- The owner of the editor's key signed the editor's file, which delegates nothing. -/
theorem ownMade_editor {md : TargetsMetadata}
    (h : MadeBy lastInterchange lostKey SignedLast [⟨ownKey.1, ownKey.2⟩] md) :
    md.delegations = none ∧ ∃ row ∈ lastFiles, row.2.signatures = [ownKey.1] ∧
      Tuf.targetsMetadata lastInterchange (.obj (Core.toDict encoding row.2)) = some md := by
  obtain ⟨signed, id, bytes, hread, -, ⟨key, hkey, rfl⟩, hbytes, hmade⟩ := h
  obtain ⟨row, hrow, hid, rfl⟩ := signed_of_canonicalize hbytes hmade
  obtain ⟨hthree, -⟩ | ⟨hown, hflat⟩ := targets_lastFiles hrow hread
  · rw [hthree, List.mem_singleton.mp hkey] at hid
    exact absurd hid (by decide)
  · exact ⟨hflat, row, hrow, hown, hread⟩

theorem custody_editor : ∃ root, Tuf.Root lastInterchange editorInstalled.root root ∧
    Custody lastInterchange root "editor" lostKey SignedLast := by
  obtain ⟨root, hroot, -⟩ := root_editor
  obtain ⟨hthreshold, htops⟩ := topMade_editor hroot
  have hown : ∀ {top threshold keys},
      MadeBy lastInterchange lostKey SignedLast (topKeys root) top →
      Database.findDelegation top (appRole "editor") = some (threshold, keys) →
        threshold = 1 ∧ keys = [⟨ownKey.1, ownKey.2⟩] := fun htop hfind =>
    Prod.mk.inj (Option.some.inj (hfind.symm.trans (htops _ htop).2.2))
  refine ⟨root, hroot, ⟨?_, fun md hmade => ?_, ?_, ?_⟩⟩
  · rw [Tuf.Withstands, hthreshold]
    exact (Finset.card_le_card (Finset.filter_subset _ _)).trans_lt (by decide)
  · obtain ⟨htargets, hroles, -⟩ := htops md hmade
    refine ⟨htargets, ["editor"], ?_⟩
    obtain ⟨delegations, hdelegations, hroles⟩ := Option.map_eq_some_iff.mp hroles
    rw [HasAppDelegations, hdelegations]
    dsimp only
    rw [hroles]
    exact .cons ⟨rfl, rfl, rfl⟩ .nil
  · intro md threshold keys hmade hfind
    obtain ⟨rfl, rfl⟩ := hown hmade hfind
    have hnone : ∀ id ∈ lostKey, ¬ ∃ key ∈ [PublicKey.mk ownKey.1 ownKey.2], key.keyId = id := by
      decide
    rw [Tuf.Withstands, Finset.filter_eq_empty_iff.mpr hnone]
    decide
  · intro top threshold keys md htop hfind hmade
    obtain ⟨-, rfl⟩ := hown htop hfind
    exact (ownMade_editor hmade).1

theorem offer_signed_by_app_editor : ∃ root, Tuf.Root lastInterchange editorInstalled.root root ∧
    ∃ tufPath description top threshold keys md,
      Tuf.TargetPath.new (cString offeredRelease.targetPath) = .ok tufPath ∧
      MadeBy lastInterchange lostKey SignedLast (topKeys root) top ∧
      Database.findDelegation top (appRole "editor") = some (threshold, keys) ∧
      MadeBy lastInterchange lostKey SignedLast keys md ∧
      md.targets.lookup tufPath = some description ∧
      ∀ payload, bindingVerifyPayload digests.sum offeredRelease.info payload = .ok () →
        payload.length = description.length.toNat ∧
          description.hashes.lookup .Sha256 = some (digests.sum payload) := by
  obtain ⟨root, hroot, hcustody⟩ := custody_editor
  obtain ⟨d, hcalls, hdelivering⟩ := delivering_editor
  have hid : Core.appIdMatches editorKey.channelKey.client.appId = true := by decide
  have hrun := hdelivering.run
  rw [hcalls] at hrun
  exact ⟨root, hroot, offer_signed_by_app hroot hid hcustody
    (fun _ => signedOnly_releasePorts) (hrun.trans (congrArg Except.ok offered_editor))⟩

end DistPlatform.Client
