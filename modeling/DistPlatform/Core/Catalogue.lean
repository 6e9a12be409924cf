import DistPlatform.Client.Naming
import DistPlatform.Core.Closing
import DistPlatform.Core.Restart
import DistPlatform.Core.Signatures

/-!
# The catalogue of one application

A repository delegates to one application, and from then on releases are added and made current,
by instances that follow one another with one backend. What is on disk is what those calls have
listed that returned, the last one for each path.

## Main definitions

* `Call.listed`, `listedAt` — what a call lists, and the last listing of a path.
* `Catalogue`, `catalogue` — the calls that have returned, and the system.
* `Serving` — what holds between any two of them.
-/

namespace DistPlatform.Core

open DistPlatform
open Runs History

section Model

variable {β : Type} (out : Outside β)

/-- The path that a call lists, with the payload and its info. -/
def Call.listed : Call β → Option (String × β × ReleaseInfo)
  | .addRelease key payload info => some (key.path, payload, info)
  | .setCurrent key => (CurrentRelease.make key.path key.version).toOption.map fun pointer =>
    (key.channelKey.pointerPath, out.dumps pointer.toJson, pointerInfo key)
  | _ => none

/-- What the calls, newest first, have listed last under a path. -/
def listedAt (path : String) : List (Call β) → Option (β × ReleaseInfo) :=
  latest fun call => (call.listed out).bind fun row => if row.1 = path then some row.2 else none

/-- What a call has been checked for when it returns, after the older ones. -/
def Call.Checked (role : String) (older : List (Call β)) : Call β → Prop
  | .addRelease key _ info => appRoleName key.appId = .ok role ∧ info.version = key.version
  | .setCurrent key => appRoleName key.appId = .ok role ∧
      (∃ pointer, CurrentRelease.make key.path key.version = .ok pointer) ∧
      (listedAt out key.path older).isSome
  | _ => False

/-- The call adds a release, or makes one current. -/
def Call.lists : Call β → Bool
  | .addRelease .. | .setCurrent _ => true
  | _ => false

/-- An instance over the directory, and the calls that have returned, newest first. -/
structure Catalogue (β : Type) where
  session : Session β
  calls : List (Call β)

/-- A call that makes at most `budget` writes, or a fresh instance with the same backend. -/
inductive Turn (β : Type)
  | call (call : Call β) (budget : Nat)
  | restart

/-- The state after a call that returns. -/
def Call.after (call : Call β) (budget : Nat) (s : Session β) : Option (Session β) :=
  match call.perform out s budget with
  | .returned _ s' _ => some s'
  | _ => none

/-- A repository that has been founded and delegates to the application. -/
def opened (backend : SignerBackend) (appId : String) (critical : Bool) (budget : Nat) :
    Option (Session β) := do
  let repo ← (Instance.new backend (.empty : Directory β)).toOption
  let s ← Call.initialise.after out budget ⟨repo, .empty⟩
  (Call.addApp appId critical).after out budget s

def Catalogue.next (d : Catalogue β) : Turn β → Option (Catalogue β)
  | .call call budget =>
    if call.lists then
      match call.perform out d.session budget with
      | .returned _ s _ => some ⟨s, call :: d.calls⟩
      | .raised _ s _ => some ⟨s, d.calls⟩
      | .killed _ => none
    else none
  | .restart => (Instance.new d.session.repo.backend d.session.dir).toOption.map fun repo =>
    ⟨⟨repo, d.session.dir⟩, d.calls⟩

/-- The calls come to their end, with a result or an error. -/
def catalogue (backend : SignerBackend) (appId : String) : System (Catalogue β) (Turn β) where
  start d := (∃ critical budget, opened out backend appId critical budget = some d.session) ∧
    d.calls = []
  step d turn d' := d.next out turn = some d'

end Model

section Listed

variable {β : Type} {out : Outside β} {call : Call β} {path : String} {payload : β}
  {info : ReleaseInfo}

theorem listedAt_cons (h : call.listed out = some (path, payload, info)) (other : String)
    (calls : List (Call β)) :
    listedAt out other (call :: calls) =
      if other = path then some (payload, info) else listedAt out other calls := by
  split
  next heq =>
    refine latest_cons_of_some ?_
    rw [h, Option.bind_some, if_pos heq.symm]
  next hne =>
    refine latest_cons_of_none ?_
    rw [h, Option.bind_some, if_neg (Ne.symm hne)]

/-- A turn adds the call that has returned, if any. -/
theorem calls_next {d d' : Catalogue β} {turn : Turn β} (h : d.next out turn = some d') :
    d'.calls = d.calls ∨ ∃ call budget, turn = .call call budget ∧ d'.calls = call :: d.calls := by
  cases turn with
  | call call budget =>
    dsimp only [Catalogue.next] at h
    split at h
    · split at h
      · obtain rfl := Option.some.inj h
        exact .inr ⟨call, budget, rfl, rfl⟩
      · obtain rfl := Option.some.inj h
        exact .inl rfl
      · cases h
    · cases h
  | restart =>
    obtain ⟨repo, -, rfl⟩ := Option.map_eq_some_iff.mp h
    exact .inl rfl

theorem after_eq_some {budget : Nat} {s s' : Session β} :
    call.after out budget s = some s' ↔
      ∃ rest, call.perform out s budget = .returned () s' rest := by
  unfold Call.after
  split
  next rest h => simp [h]
  next h =>
    refine iff_of_false nofun ?_
    rintro ⟨rest, hreturned⟩
    exact h () s' rest hreturned

/-! ### What the calls have listed -/

variable {role : String} {calls : List (Call β)}

theorem checked_of_mem (h : Justified (fun call older => call.Checked out role older) calls)
    {call : Call β} (hmem : call ∈ calls) :
    ∃ newer older, calls = newer ++ call :: older ∧ call.Checked out role older := by
  obtain ⟨newer, older, rfl⟩ := List.append_of_mem hmem
  exact ⟨newer, older, rfl, h.of_append⟩

/-- What is listed under a path is a release of that name, or the pointer of a channel. -/
theorem listedAt_cases (h : Justified (fun call older => call.Checked out role older) calls)
    (hlisted : listedAt out path calls = some (payload, info)) :
    (∃ key, .addRelease key payload info ∈ calls ∧ key.path = path ∧
        appRoleName key.appId = .ok role ∧ info.version = key.version) ∨
      ∃ key pointer, .setCurrent key ∈ calls ∧ key.channelKey.pointerPath = path ∧
        appRoleName key.appId = .ok role ∧
        CurrentRelease.make key.path key.version = .ok pointer ∧
        payload = out.dumps pointer.toJson ∧ info = pointerInfo key := by
  obtain ⟨call, hmem, hsaid⟩ := exists_of_latest hlisted
  obtain ⟨⟨name, row⟩, hrow, hpath⟩ := Option.bind_eq_some_iff.mp hsaid
  split at hpath
  next hname =>
    obtain rfl := Option.some.inj hpath
    dsimp only at hname
    subst hname
    obtain ⟨newer, older, -, hchecked⟩ := checked_of_mem h hmem
    cases call with
    | initialise | addApp => cases hrow
    | addRelease key payload info =>
      obtain ⟨rfl, rfl, rfl⟩ := Prod.mk.inj (Option.some.inj hrow)
      exact .inl ⟨key, hmem, rfl, hchecked.1, hchecked.2⟩
    | setCurrent key =>
      obtain ⟨hrole, ⟨pointer, hpointer⟩, -⟩ := hchecked
      simp only [Core.Call.listed, hpointer, Except.toOption, Option.map_some,
        Option.some.injEq, Prod.mk.injEq] at hrow
      obtain ⟨rfl, rfl, rfl⟩ := hrow
      exact .inr ⟨key, pointer, hmem, rfl, hrole, hpointer, rfl, rfl⟩
  · cases hpath

/-- A release that was made current had been added, and is listed still. -/
theorem released_of_setCurrent (h : Justified (fun call older => call.Checked out role older) calls)
    {key : TargetKey} (hmem : .setCurrent key ∈ calls) :
    ∃ key' payload info, .addRelease key' payload info ∈ calls ∧ key'.path = key.path ∧
      key'.version = key.version ∧ info.version = key.version ∧
      listedAt out key.path calls = some (payload, info) := by
  obtain ⟨newer, older, hsplit, -, -, hlisted⟩ := checked_of_mem h hmem
  have hsome : (listedAt out key.path calls).isSome := by
    rw [hsplit, List.append_cons]
    exact latest_isSome_append hlisted
  obtain ⟨⟨payload, info⟩, hlast⟩ := Option.isSome_iff_exists.mp hsome
  obtain ⟨release, hrelease, hpath, -, hversion⟩ | ⟨other, -, -, hpointer, -⟩ :=
    listedAt_cases h hlast
  · have hsame : release.version = key.version := by
      obtain heq | hshifted := TargetKey.path_eq_iff.mp hpath
      · rw [heq]
      · exact hshifted.2.1
    exact ⟨release, payload, info, hrelease, hpath, hsame, hversion.trans hsame, hlast⟩
  · exact absurd hpointer.symm (key.path_ne_pointerPath _)

end Listed

/-! ## What is on disk -/

section Serving

variable {β : Type}

/-- The application's role lists what the calls have listed, and is delegated to alone; every
file is signed with the keys that are listed for its role. -/
structure Serving (out : Outside β) (backend : SignerBackend) (appId role : String)
    (d : Catalogue β) : Prop where
  informed : Informed d.session
  announced : Announced d.session.dir.log
  root : ∃ md root, Rooted backend md d.session ∧ md.signed = .root root ∧ root.Lists backend ∧
    md.version = 1
  keyed : ∀ row ∈ TOP_LEVEL_POLICIES, row.2.threshold ≤ (backend.keyids row.1).length
  appKeyed : backend.keyids role ≠ []
  top : ∃ delegations, held d.session.dir TARGETS = some (.targets ⟨[], some delegations⟩) ∧
    delegations.roles = [(role, ⟨role, backend.keyids role, 1, false, [appPathPattern appId]⟩)] ∧
    ∀ keyid, delegations.keys.get keyid =
      if keyid ∈ backend.keyids role then some (backend.publicKey keyid) else none
  listing : ∃ targets, held d.session.dir role = some (.targets ⟨targets, none⟩) ∧
    ∀ path, targets.get path =
      (listedAt out path d.calls).map fun row => targetFile out row.1 row.2
  payloads : ∀ path payload info, listedAt out path d.calls = some (payload, info) →
    d.session.dir.payloads.get (payloadPath path (out.sha256 payload)) = some payload

variable {out : Outside β} {backend : SignerBackend} {appId role : String} {d : Catalogue β}
  {s' : Session β}

theorem Serving.delegated (h : Serving out backend appId role d) :
    delegated d.session.dir.log = [role] := by
  obtain ⟨delegations, hheld, hroles, -⟩ := h.top
  obtain ⟨md, hlast, hsigned⟩ := Option.map_eq_some_iff.mp hheld
  rw [delegated_of_lastOf hlast, hsigned, Signed.delegates, hroles]
  rfl

theorem Serving.appRoles (h : Serving out backend appId role d) {name : String} :
    name ∈ d.session.repo.appRoles ↔ name = role := by
  rw [h.informed.appRoles, h.delegated, List.mem_singleton]

theorem Serving.backend_eq (h : Serving out backend appId role d) :
    d.session.repo.backend = backend := by
  obtain ⟨_, _, hrooted, -⟩ := h.root
  exact hrooted.backend

theorem Serving.keyed_top (h : Serving out backend appId role d) {row : String × RolePolicy}
    (hrow : row ∈ TOP_LEVEL_POLICIES) : Keyed row.1 d.session :=
  ⟨row.2, h.informed.topPolicies row hrow, h.backend_eq ▸ h.keyed row hrow⟩

theorem Serving.keyed_app (h : Serving out backend appId role d) : Keyed role d.session := by
  obtain ⟨policy, hpolicy, hthreshold⟩ := h.informed.appPolicies role (h.appRoles.mpr rfl)
  refine ⟨policy, hpolicy, ?_⟩
  rw [hthreshold, h.backend_eq]
  exact List.length_pos_iff.mpr h.appKeyed

theorem Serving.equipped (h : Serving out backend appId role d)
    (hrefuses : RefusesRollback out.tuf) (hseen : Seen role) : Equipped out d.session where
  keys := ⟨h.keyed_top (show (SNAPSHOT, SNAPSHOT_POLICY) ∈ TOP_LEVEL_POLICIES by decide),
    h.keyed_top (show (TIMESTAMP, TIMESTAMP_POLICY) ∈ TOP_LEVEL_POLICIES by decide)⟩
  refuses := hrefuses
  reaches name hname := by
    rw [h.delegated, List.mem_singleton] at hname
    exact .inl (hname ▸ hseen)

/-- Publishing a target of the application cannot fail. -/
theorem Serving.publishTarget (h : Serving out backend appId role d)
    (hlists : ListsReported out.tuf) (hrefuses : RefusesRollback out.tuf) (hseen : Seen role)
    {name : String} (hname : name ∈ d.session.repo.appRoles) (path : String) (payload : β)
    (info : ReleaseInfo) :
    (publishTarget out name path payload info).Ensures d.session (fun _ _ => True)
      (· = d.session) (fun _ => True) := by
  obtain rfl := h.appRoles.mp hname
  have happ := appRole_of_informed h.informed hname
  exact (publishTarget_performed (K := fun _ => True) h.informed hlists hname
    (.inr ⟨.inl hseen, h.keyed_app, fun _ hwrote =>
      hwrote.canPublish (h.equipped hrefuses hseen) happ (.inl hseen)⟩)
    fun _ _ _ _ => trivial).mono fun _ _ _ => trivial

/-- A call that raises has changed nothing. -/
theorem Serving.raises (h : Serving out backend appId role d)
    (hlists : ListsReported out.tuf) (hrefuses : RefusesRollback out.tuf) (hseen : Seen role)
    {call : Call β} (hcall : call.lists = true) :
    (call.perform out).Ensures d.session (fun _ _ => True) (· = d.session) (fun _ => True) := by
  have hpublish {name : String} (hname : name ∈ d.session.repo.appRoles) :=
    h.publishTarget hlists hrefuses hseen hname
  cases call with
  | initialise | addApp => cases hcall
  | addRelease key payload info =>
    refine .bind (Q := fun _ _ => True) (.lift_bind rfl fun _ _ => ?_) fun _ _ _ => .pure trivial
    refine .bind (delegatedRole_performed (K := fun _ => True) (.inl rfl)) ?_
    rintro name s ⟨rfl, -, hname⟩
    exact .bind (hpublish hname _ _ _) fun _ _ _ => .pure trivial
  | setCurrent key =>
    refine .bind (Q := fun _ _ => True) ?_ fun _ _ _ => .pure trivial
    refine .bind (delegatedRole_performed (K := fun _ => True) (.inl rfl)) ?_
    rintro name s ⟨rfl, -, hname⟩
    refine .read_bind (.lift_bind rfl fun md _ => ?_)
    split
    · refine .lift_bind rfl fun _ _ => .lift_bind rfl fun pointer _ => ?_
      exact .bind (hpublish hname _ _ _) fun _ _ _ => .pure trivial
    · exact .raise rfl

/-- One more listing. -/
theorem Serving.list (h : Serving out backend appId role d) (hlisted : Listed role)
    (happ : AppRole role) {call : Call β} {path : String} {payload : β} {info : ReleaseInfo}
    (hcall : call.listed out = some (path, payload, info))
    (hperformed : Performed (Core.listing out role path payload info) d.session s')
    (hrooted : ∀ root, Rooted backend root d.session → Rooted backend root s') :
    Serving out backend appId role ⟨s', call :: d.calls⟩ := by
  have hne : TARGETS ≠ role := (happ.ne (by decide)).symm
  obtain ⟨md, root, hroot, hmd, hrest⟩ := h.root
  obtain ⟨delegations, htop, hdelegations⟩ := h.top
  obtain ⟨targets, hheld, hlisting⟩ := h.listing
  refine ⟨hperformed.informed, hperformed.announced, ⟨md, root, hrooted md hroot, hmd, hrest⟩,
    h.keyed, h.appKeyed, ⟨delegations, ?_, hdelegations⟩,
    ⟨targets.put path (targetFile out payload info), ?_, fun other => ?_⟩,
    fun other content described hlatest => ?_⟩
  · rw [hperformed.content TARGETS ⟨seen_targets, .inl rfl⟩, ← htop]
    exact if_neg hne
  · rw [hperformed.content role hlisted, hheld]
    exact if_pos rfl
  · dsimp only
    rw [Table.get_put, listedAt_cons hcall, hlisting]
    split <;> rfl
  · rw [hperformed.payloads]
    change (Table.put _ _ _).get _ = _
    rw [listedAt_cons hcall] at hlatest
    split at hlatest
    next heq =>
      obtain ⟨rfl, -⟩ := Prod.mk.inj (Option.some.inj hlatest)
      rw [heq, Table.get_put_self]
    next hother =>
      rw [Table.get_put_of_ne]
      · exact h.payloads other content described hlatest
      · exact fun heq => hother (path_of_payloadPath_sha256 out heq)

theorem CanFound.keyed {s : Session β} (h : CanFound s) (hsnapshot : Keyed SNAPSHOT s)
    (htimestamp : Keyed TIMESTAMP s) : ∀ row ∈ TOP_LEVEL_POLICIES, Keyed row.1 s := by
  simp only [TOP_LEVEL_POLICIES, List.map_cons, List.map_nil, List.forall_mem_cons]
  refine ⟨?_, h.targets, hsnapshot, htimestamp, fun _ hmem => by cases hmem⟩
  obtain ⟨md, signed, -, hchange, hgoes⟩ := h.root
  obtain ⟨root, rfl⟩ := rootChange_eq_ok hchange
  exact hgoes rfl

/-- Both ceremonies have been performed, one after the other. -/
theorem opened_performed (hlists : ListsReported out.tuf) {critical : Bool} {budget : Nat}
    {s : Session β} (h : opened out backend appId critical budget = some s) :
    ∃ repo s₁ policy rest rest', Instance.new backend (.empty : Directory β) = .ok repo ∧
      repo.backend = backend ∧ Informed ⟨repo, (.empty : Directory β)⟩ ∧
      Call.initialise.perform out ⟨repo, .empty⟩ budget = .returned () s₁ rest ∧
      (Call.addApp appId critical).perform out s₁ budget = .returned () s rest' ∧
      appRolePolicy appId critical = .ok policy ∧ s₁.repo.backend.keyids policy.name ≠ [] ∧
      Performed founding ⟨repo, .empty⟩ s₁ ∧
      Performed (delegating s₁.repo.backend policy appId) s₁ s ∧
      ∀ row ∈ TOP_LEVEL_POLICIES, Keyed row.1 (⟨repo, .empty⟩ : Session β) := by
  obtain ⟨repo, hrepo, s₁, hfounded, hadded⟩ :
      ∃ repo, (Instance.new backend (.empty : Directory β)).toOption = some repo ∧ ∃ s₁,
        Call.initialise.after out budget ⟨repo, .empty⟩ = some s₁ ∧
          (Call.addApp appId critical).after out budget s₁ = some s := by
    simpa only [opened, Fallible.bind_eq_some] using h
  obtain ⟨repo', hnew, hbackend, hs⟩ := (recorded_empty (β := β)).informed_new backend
  obtain rfl := Except.ok.inj ((eq_ok_of_toOption hrepo).symm.trans hnew)
  obtain ⟨rest, hfounded⟩ := after_eq_some.mp hfounded
  obtain ⟨rest', hadded⟩ := after_eq_some.mp hadded
  have hfirst := perform_performed (R := fun _ => True) (K := fun _ => True) hs hlists .initialise
    (.inl fun _ _ => trivial) trivial (fun _ _ _ _ _ _ => trivial) budget
  rw [hfounded] at hfirst
  obtain ⟨e, he, hperformed, hcan, -, hkeys⟩ := hfirst
  obtain rfl := Option.some.inj he
  obtain ⟨hsnapshot, htimestamp⟩ := hkeys.resolve_right fun h => (by cases h.1)
  have hsecond := perform_performed (R := fun _ => True) (K := fun _ => True)
    hperformed.informed hlists (.addApp appId critical)
    (.inl fun _ _ => trivial) trivial (fun _ _ _ _ _ _ => trivial) budget
  rw [hadded] at hsecond
  obtain ⟨e, he, hperformed', ⟨-, policy, hpolicy, hkeyids⟩, -⟩ := hsecond
  obtain rfl : delegating s₁.repo.backend policy appId = e := by
    simpa [Call.effect, hpolicy, Except.toOption] using he
  exact ⟨repo, s₁, policy, rest, rest', hnew, hbackend, hs, hfounded, hadded, hpolicy, hkeyids,
    hperformed, hperformed', hcan.keyed hsnapshot htimestamp⟩

/-- What the ceremonies leave. -/
theorem serving_opened (hlists : ListsReported out.tuf) (hdistinct : backend.Distinct)
    (hrole : appRoleName appId = .ok role) (hseen : Seen role) {critical : Bool} {budget : Nat}
    {s : Session β} (h : opened out backend appId critical budget = some s) :
    Serving out backend appId role ⟨s, []⟩ := by
  have happ : AppRole role := ⟨appId, hrole⟩
  obtain ⟨repo, s₁, policy, rest, rest', hnew, hbackend, hs, hfounded, hadded, hpolicy, hkeyids,
    hperformed, hperformed', hkeys⟩ := opened_performed hlists h
  have hrooted : (Call.initialise.perform out _ budget).Satisfies _ _ _ :=
    initialise_rooted hs ⟨fun _ _ hlast => (by cases hlast), hbackend⟩ hdistinct budget
  rw [hfounded] at hrooted
  obtain ⟨md, root, hroot, hmd, hroots, hversion⟩ := hrooted
  have hrooted' : ((Call.addApp appId critical).perform out s₁ budget).Satisfies _ _ _ :=
    perform_rooted (by rintro ⟨⟩) s₁ hroot budget
  rw [hadded] at hrooted'
  obtain ⟨hname, hthreshold, -⟩ := appRolePolicy_eq_ok hpolicy
  obtain rfl := Except.ok.inj (hrole.symm.trans hname)
  rw [hroot.backend] at hperformed' hkeyids
  have hne : policy.name ≠ TARGETS := happ.ne (by decide)
  have htop : held s.dir TARGETS = some (.targets (delegate backend policy appId
      (backend.keyids policy.name) ⟨[], none⟩)) := by
    rw [hperformed'.content TARGETS ⟨seen_targets, .inl rfl⟩,
      hperformed.content TARGETS ⟨seen_targets, .inl rfl⟩]
    rfl
  have hlisting : held s.dir policy.name = some (.targets ⟨[], none⟩) := by
    rw [hperformed'.content policy.name ⟨hseen, .inr happ⟩,
      hperformed.content policy.name ⟨hseen, .inr happ⟩]
    exact ((if_neg hne).trans (if_pos rfl)).trans (congrArg (edited id) (if_neg hne))
  refine ⟨hperformed'.informed, hperformed'.announced, ⟨md, root, hrooted', hmd, hroots, hversion⟩,
    ?_, hkeyids, ⟨_, htop, ?_, fun keyid => ?_⟩, ⟨_, hlisting, fun _ => rfl⟩,
    fun _ _ _ hlisted => by cases hlisted⟩
  · intro row hrow
    obtain ⟨policy, hpolicy, henough⟩ := hkeys row hrow
    obtain rfl := Option.some.inj ((hs.topPolicies row hrow).symm.trans hpolicy)
    exact hbackend ▸ henough
  · rw [hthreshold]
    rfl
  · exact Table.get_foldl_put _ _ _ _

/-! ## Every state -/

theorem Serving.listed_of_lists (h : Serving out backend appId role d) {path : String}
    (hlists : Lists (held d.session.dir role) path) : (listedAt out path d.calls).isSome := by
  obtain ⟨targets, hheld, hlisting⟩ := h.listing
  obtain ⟨targets', hheld', hsome⟩ := hlists
  obtain ⟨rfl, -⟩ := Targets.mk.inj (Signed.targets.inj (Option.some.inj (hheld.symm.trans hheld')))
  simpa [hlisting] using hsome

/-- A call that returns lists something, and has been checked. -/
theorem Serving.returns (h : Serving out backend appId role d) (hlists : ListsReported out.tuf)
    (hrole : appRoleName appId = .ok role) (hseen : Seen role) {call : Call β}
    (hcall : call.lists = true) {budget rest : Nat}
    (hreturned : call.perform out d.session budget = .returned () s' rest) :
    Serving out backend appId role ⟨s', call :: d.calls⟩ ∧ call.Checked out role d.calls := by
  have happ : AppRole role := ⟨appId, hrole⟩
  have hperformed := perform_performed (R := fun _ => True) (K := fun _ => True) h.informed hlists
    call (.inl fun _ _ => trivial) trivial (fun _ _ _ _ _ _ => trivial) budget
  have hrooted (root) (hroot : Rooted backend root d.session) : Rooted backend root s' := by
    have hkeeps : (call.perform out d.session budget).Satisfies _ _ _ :=
      perform_rooted (by rintro rfl; cases hcall) d.session hroot budget
    rwa [hreturned] at hkeeps
  rw [hreturned] at hperformed
  obtain ⟨e, he, hperformed, hcan, -⟩ := hperformed
  have hown {name : String} : name ∈ d.session.repo.appRoles → name = role := h.appRoles.mp
  cases call with
  | initialise | addApp => cases hcall
  | addRelease key payload info =>
    obtain ⟨hversion, name, hname, hmem, -⟩ := hcan
    obtain rfl := hown hmem
    obtain rfl : Core.listing out name key.path payload info = e := by
      simpa [Call.effect, hname, Except.toOption] using he
    exact ⟨h.list ⟨hseen, .inr happ⟩ happ rfl hperformed hrooted, hname, hversion⟩
  | setCurrent key =>
    obtain ⟨⟨name, hname, hmem, -, hlisted⟩, pointer, hpointer⟩ := hcan
    obtain rfl := hown hmem
    obtain rfl : Core.listing out name key.channelKey.pointerPath (out.dumps pointer.toJson)
        (pointerInfo key) = e := by
      simpa [Call.effect, hname, hpointer, Except.toOption] using he
    have hlists : (Call.setCurrent key).listed out =
        some (key.channelKey.pointerPath, out.dumps pointer.toJson, pointerInfo key) := by
      simp [Call.listed, hpointer, Except.toOption]
    exact ⟨h.list ⟨hseen, .inr happ⟩ happ hlists hperformed hrooted, hname, ⟨pointer, hpointer⟩,
      h.listed_of_lists (hlisted hseen)⟩

/-- What every state of a catalogue has. -/
theorem serving_next (h : Serving out backend appId role d) (hlists : ListsReported out.tuf)
    (hrefuses : RefusesRollback out.tuf) (hrole : appRoleName appId = .ok role)
    (hseen : Seen role) {turn : Turn β} {d' : Catalogue β} (hnext : d.next out turn = some d') :
    Serving out backend appId role d' ∧
      (d'.calls = d.calls ∨
        ∃ call, d'.calls = call :: d.calls ∧ call.Checked out role d.calls) := by
  cases turn with
  | call call budget =>
    dsimp only [Catalogue.next] at hnext
    split at hnext
    next hcall =>
      split at hnext
      next s' rest hreturned =>
        obtain rfl := Option.some.inj hnext
        obtain ⟨hserving, hchecked⟩ := h.returns hlists hrole hseen hcall hreturned
        exact ⟨hserving, .inr ⟨call, rfl, hchecked⟩⟩
      next s' rest hraised =>
        obtain rfl := Option.some.inj hnext
        have hsame := h.raises hlists hrefuses hseen hcall budget
        rw [hraised] at hsame
        obtain rfl := hsame
        exact ⟨h, .inl rfl⟩
      · cases hnext
    · cases hnext
  | restart =>
    obtain ⟨repo, hrepo, rfl⟩ := Option.map_eq_some_iff.mp hnext
    obtain ⟨repo', hnew, hbackend, hinformed⟩ :=
      h.informed.recorded.informed_new d.session.repo.backend
    obtain rfl := Except.ok.inj ((eq_ok_of_toOption hrepo).symm.trans hnew)
    obtain ⟨md, root, hroot, hrest⟩ := h.root
    refine ⟨⟨hinformed, h.announced, ⟨md, root, ⟨⟨hroot.signatures, ?_⟩, hroot.root⟩, hrest⟩,
      h.keyed, h.appKeyed, h.top, h.listing, h.payloads⟩, .inl rfl⟩
    exact hbackend.trans h.backend_eq

/-- Between any two turns the directory has what the calls have listed, and each of them was
checked against the older ones. -/
theorem serving_of_reachable (hlists : ListsReported out.tuf) (hrefuses : RefusesRollback out.tuf)
    (hdistinct : backend.Distinct) (hrole : appRoleName appId = .ok role) (hseen : Seen role)
    (h : (catalogue out backend appId).Reachable d) :
    Serving out backend appId role d ∧
      Justified (fun call older => call.Checked out role older) d.calls := by
  induction h with
  | @start d hstart =>
    obtain ⟨⟨critical, budget, hopened⟩, hcalls⟩ := hstart
    obtain ⟨s, calls⟩ := d
    obtain rfl : calls = [] := hcalls
    exact ⟨serving_opened hlists hdistinct hrole hseen hopened, trivial⟩
  | step _ hnext ih =>
    obtain ⟨hserving, hchecked⟩ := ih
    obtain ⟨hserving', hsame | ⟨call, hcalls, hcall⟩⟩ :=
      serving_next hserving hlists hrefuses hrole hseen hnext
    · exact ⟨hserving', hsame ▸ hchecked⟩
    · exact ⟨hserving', hcalls ▸ hchecked.cons hcall⟩

end Serving

end DistPlatform.Core
