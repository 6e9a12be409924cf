import DistPlatform.Core.Continuity

/-!
# Who has signed what there is

An instance signs with the keys that its backend has for a role. As long as the backend stays,
so has every file of the directory been signed; and as long as nobody founds the repository
again, its root is the first one, which lists these keys.

## Main definitions

* `SignedBy` — the last file of every role has the signatures of one backend.
* `Rooted` — the same, under a given root.
* `Root.Lists` — the root has the keys of a backend for each top-level role.
-/

namespace DistPlatform.Core

open DistPlatform
open Runs History

variable {β : Type} {out : Outside β} {s : Session β} {role : String} {backend : SignerBackend}

/-! ## What the closes keep, an operation keeps -/

section Keeps

variable {I : Session β → Prop}

theorem writeMetadata_keeps (hs : I s) {version : Nat} {md : Metadata}
    (hput : I { s with dir := s.dir.put (filename role version) md })
    (hcopy : role = ROOT → ∀ s, I s → I { s with dir := s.dir.put "root.json" md }) :
    (writeMetadata role version md : Work β Unit).Ensures s (fun _ => I) I I := by
  refine .bind (Q := fun _ => I) (.write hs hput) fun _ s' hs' => ?_
  split
  next hroot => exact .write hs' (hcopy hroot s' hs')
  · exact .pure hs'

/-- A close writes one file of its role, the copy of a root, and the memory of the version. -/
theorem close_keeps
    (hput : ∀ s md, I s → md.signatures = s.repo.backend.keyids role →
      I { s with dir := s.dir.put (filename role md.version) md })
    (hcopy : role = ROOT → ∀ s md, I s → I { s with dir := s.dir.put "root.json" md })
    (hversion : ∀ s version, I s → I (s.setVersion role version)) (md : Metadata) :
    (close out role md).Keeps I := by
  intro s hs
  refine .read_bind ?_
  split
  · exact .raise hs
  next policy _ =>
    dsimp only
    split
    · exact .raise hs
    · let signed : Metadata := { md with
        version := s.repo.version role + 1
        expires := out.clock s.dir.history.length + policy.expiry
        signatures := s.repo.backend.keyids role }
      have hwrite := writeMetadata_keeps hs (hput s signed hs rfl)
        fun hroot s => hcopy hroot s signed
      exact .bind hwrite fun _ s' hs' => .update (hversion s' _ hs')

theorem edit_keeps (hclose : ∀ md, (close out role md).Keeps I)
    (change : Metadata → Except RepositoryError (Option Signed)) :
    (edit out role change).Keeps I := by
  refine .read_bind fun s => .lift_bind fun md _ => .lift_bind fun signed _ => ?_
  cases signed with
  | none => exact .pure ()
  | some signed => exact hclose _

theorem publish_keeps (hclose : ∀ role ≠ ROOT, ∀ md, (close out role md).Keeps I) :
    (publish out).Keeps I :=
  .bind (.read_bind fun _ => edit_keeps (hclose SNAPSHOT (by decide)) _) fun _ =>
    .read_bind fun _ => edit_keeps (hclose TIMESTAMP (by decide)) _

theorem delegatedRole_keeps {appId : String} (hs : I s) :
    (delegatedRole appId : Work β String).Ensures s
      (fun role s' => s = s' ∧ appRoleName appId = .ok role) I I :=
  .lift_bind hs fun _ hrole => .read_bind (.lift_bind hs fun _ _ =>
    .pure ⟨rfl, Fallible.mapError_eq_ok.mp hrole⟩)

variable (hclose : ∀ role ≠ ROOT, ∀ md, (close out role md).Keeps I)
  (hstore : ∀ s path payload, I s → I { s with dir := s.dir.store path payload })

include hclose

theorem addApp_keeps (hpolicy : ∀ s policy, I s → I (s.setPolicy policy))
    (hrole : ∀ s role, I s → I (s.addAppRole role)) (appId : String) (critical : Bool) :
    (addApp out appId critical).Keeps I := by
  refine .lift_bind fun policy h => ?_
  have happ : AppRole policy.name := ⟨appId, (appRolePolicy_eq_ok (appPolicy_of_lift h)).1⟩
  refine .bind (.update fun s => hpolicy s policy) fun _ =>
    .read_bind fun s => .lift_bind fun _ _ => ?_
  refine .bind (edit_keeps (hclose TARGETS (by decide)) _) fun _ =>
    .bind (.update fun s => hrole s policy.name) fun _ => ?_
  refine .bind (edit_keeps (hclose policy.name (happ.ne (by decide))) _) fun _ => ?_
  exact .bind (publish_keeps hclose) fun _ => .pure _

include hstore

theorem publishTarget_keeps (happ : AppRole role) (path : String) (payload : β)
    (info : ReleaseInfo) : (publishTarget out role path payload info).Keeps I :=
  .bind (.write fun s => hstore s _ _) fun _ =>
    .bind (edit_keeps (hclose role (happ.ne (by decide))) _) fun _ => publish_keeps hclose

theorem addRelease_keeps (key : TargetKey) (payload : β) (info : ReleaseInfo) :
    (addRelease out key payload info).Keeps I := by
  refine .lift_bind fun _ _ s hs => ?_
  refine .bind (delegatedRole_keeps hs) ?_
  rintro role s' ⟨rfl, hrole⟩
  exact .bind (publishTarget_keeps hclose hstore ⟨_, hrole⟩ _ _ _ s hs) fun _ _ h => .pure h

theorem setCurrent_keeps (key : TargetKey) : (setCurrent out key).Keeps I := by
  intro s hs
  refine .bind (delegatedRole_keeps hs) ?_
  rintro role s' ⟨rfl, hrole⟩
  refine .read_bind (.lift_bind hs fun md _ => ?_)
  split
  · refine .lift_bind hs fun _ _ => .lift_bind hs fun pointer _ => ?_
    exact .bind (publishTarget_keeps hclose hstore ⟨_, hrole⟩ _ _ _ s hs) fun _ _ h => .pure h
  · exact .raise hs

/-- What every operation keeps that does not found the repository. -/
theorem perform_keeps (hpolicy : ∀ s policy, I s → I (s.setPolicy policy))
    (hrole : ∀ s role, I s → I (s.addAppRole role)) {call : Call β} (hcall : call ≠ .initialise) :
    (call.perform out).Keeps I := by
  cases call with
  | initialise => exact absurd rfl hcall
  | addApp appId critical =>
    exact .bind (addApp_keeps hclose hpolicy hrole appId critical) fun _ => .pure _
  | addRelease key payload info =>
    exact .bind (addRelease_keeps hclose hstore key payload info) fun _ => .pure _
  | setCurrent key => exact .bind (setCurrent_keeps hclose hstore key) fun _ => .pure _

end Keeps

/-! ## One backend -/

/-- The instance has this backend, and so had those that wrote what there is. -/
structure SignedBy (backend : SignerBackend) (s : Session β) : Prop where
  signatures : ∀ role md, lastOf role s.dir.log = some md → md.signatures = backend.keyids role
  backend : s.repo.backend = backend

/-- And this is the root. -/
structure Rooted (backend : SignerBackend) (root : Metadata) (s : Session β) : Prop extends
    SignedBy backend s where
  root : lastOf ROOT s.dir.log = some root

theorem SignedBy.put (hs : SignedBy backend s) {md : Metadata}
    (hmd : md.signatures = backend.keyids role) :
    SignedBy backend { s with dir := s.dir.put (filename role md.version) md } := by
  refine ⟨fun other last hlast => ?_, hs.backend⟩
  rw [log_put, lastOf_cons rfl] at hlast
  split at hlast
  next heq => rw [← Option.some.inj hlast, heq, hmd]
  · exact hs.signatures other last hlast

theorem SignedBy.copy (hs : SignedBy backend s) (md : Metadata) :
    SignedBy backend { s with dir := s.dir.put "root.json" md } := by
  refine ⟨fun other last hlast => ?_, hs.backend⟩
  rw [log_put, lastOf_cons_root] at hlast
  exact hs.signatures other last hlast

theorem close_signedBy (md : Metadata) : (close out role md).Keeps (SignedBy backend) :=
  close_keeps (fun s _ hs hmd => hs.put (hmd.trans (by rw [hs.backend])))
    (fun _ s md hs => hs.copy md) (fun _ _ hs => ⟨hs.signatures, hs.backend⟩) md

theorem close_rooted {root : Metadata} (hrole : role ≠ ROOT) (md : Metadata) :
    (close out role md).Keeps (Rooted backend root) := by
  refine close_keeps (fun s md hs hmd => ?_) (fun hroot => absurd hroot hrole)
    (fun _ _ hs => ⟨⟨hs.signatures, hs.backend⟩, hs.root⟩) md
  refine ⟨hs.put (hmd.trans (by rw [hs.backend])), ?_⟩
  rw [log_put, lastOf_cons rfl, if_neg (Ne.symm hrole), hs.root]

/-- The backend and the root stay. -/
theorem perform_rooted {root : Metadata} {call : Call β} (hcall : call ≠ .initialise) :
    (call.perform out).Keeps (Rooted backend root) :=
  perform_keeps (fun _ hrole md => close_rooted hrole md)
    (fun _ _ _ hs => ⟨⟨hs.signatures, hs.backend⟩, hs.root⟩)
    (fun _ _ hs => ⟨⟨hs.signatures, hs.backend⟩, hs.root⟩)
    (fun _ _ hs => ⟨⟨hs.signatures, hs.backend⟩, hs.root⟩) hcall

/-! ## The first root -/

/-- The root lists the keys of the backend for every top-level role, and no others. -/
structure Root.Lists (backend : SignerBackend) (root : Root) : Prop where
  consistent : root.consistentSnapshot = true
  roles : ∀ row ∈ TOP_LEVEL_POLICIES,
    root.roles.get row.1 = some ⟨backend.keyids row.1, row.2.threshold⟩
  keys : ∀ row ∈ TOP_LEVEL_POLICIES, ∀ keyid ∈ backend.keyids row.1,
    root.keys.get keyid = some (backend.publicKey keyid)
  own : ∀ keyid key, root.keys.get keyid = some key →
    key = backend.publicKey keyid ∧ ∃ role, keyid ∈ backend.keyids role

/-- The key ids of a role are distinct. -/
def SignerBackend.Distinct (backend : SignerBackend) : Prop := ∀ role, (backend.keyids role).Nodup

/-- One key after the other. -/
theorem foldl_addKey (publicKey : String → String) {keyids : List String} {root : Root}
    {entry : RootRole} (hentry : root.roles.get role = some entry)
    (hnew : (entry.keyids ++ keyids).Nodup) :
    let root' := keyids.foldl (fun root keyid => root.addKey (publicKey keyid) keyid role) root
    root'.consistentSnapshot = root.consistentSnapshot ∧
      root'.roles.get role = some { entry with keyids := entry.keyids ++ keyids } ∧
      (∀ other ≠ role, root'.roles.get other = root.roles.get other) ∧
      ∀ keyid, root'.keys.get keyid =
        if keyid ∈ keyids then some (publicKey keyid) else root.keys.get keyid := by
  induction keyids generalizing root entry with
  | nil => simpa using hentry
  | cons keyid keyids ih =>
    have hnot : keyid ∉ entry.keyids := fun hmem =>
      (List.nodup_append.mp hnew).2.2 keyid hmem keyid List.mem_cons_self rfl
    have hnext : (root.addKey (publicKey keyid) keyid role).roles.get role =
        some { entry with keyids := entry.keyids ++ [keyid] } := by
      simp only [Root.addKey, hentry, Option.getD_some, if_neg hnot, Table.get_put_self]
    obtain ⟨hconsistent, hroles, hothers, hkeys⟩ := ih hnext (by simpa using hnew)
    refine ⟨hconsistent, by simpa using hroles, fun other hne => ?_, fun other => ?_⟩
    · exact (hothers other hne).trans (Table.get_put_of_ne _ _ hne)
    · rw [List.foldl_cons, hkeys, Root.addKey, Table.get_put]
      grind

/-- One role after the other. -/
theorem rootWithRole_eq_ok {root root' : Root} {policy : RolePolicy}
    (h : rootWithRole backend root policy = .ok root') {threshold : Nat}
    (hentry : root.roles.get policy.name = some ⟨[], threshold⟩)
    (hdistinct : (backend.keyids policy.name).Nodup) :
    root'.consistentSnapshot = root.consistentSnapshot ∧
      (∀ role, root'.roles.get role = if role = policy.name then
        some ⟨backend.keyids policy.name, policy.threshold⟩ else root.roles.get role) ∧
      ∀ keyid, root'.keys.get keyid = if keyid ∈ backend.keyids policy.name then
        some (backend.publicKey keyid) else root.keys.get keyid := by
  have hnew : ([] ++ backend.keyids policy.name).Nodup := hdistinct
  obtain ⟨hconsistent, hrole, hothers, hkeys⟩ := foldl_addKey backend.publicKey hentry hnew
  unfold rootWithRole at h
  split at h
  · cases h
  · obtain rfl := Except.ok.inj h
    refine ⟨hconsistent, fun role => ?_, hkeys⟩
    dsimp only
    rw [Table.get_put, hrole]
    split
    · rfl
    next hne => exact hothers role hne

theorem lists_of_rootChange (hdistinct : backend.Distinct) {signed : Option Signed}
    (h : rootChange backend (Metadata.initial ROOT) = .ok signed) :
    ∃ root, signed = some (.root root) ∧ root.Lists backend := by
  obtain ⟨root, hfold, h⟩ := Fallible.bind_eq_ok.mp h
  refine ⟨root, (Except.ok.inj h).symm, ?_⟩
  simp only [TOP_LEVEL_POLICIES, List.map_cons, List.map_nil, List.foldlM_cons, List.foldlM_nil,
    Fallible.bind_eq_ok, Fallible.pure_eq_ok] at hfold
  obtain ⟨r₁, h₁, r₂, h₂, r₃, h₃, r₄, h₄, rfl⟩ := hfold
  obtain ⟨c₁, roles₁, keys₁⟩ := rootWithRole_eq_ok h₁ rfl (hdistinct _)
  obtain ⟨c₂, roles₂, keys₂⟩ := rootWithRole_eq_ok h₂ (roles₁ _) (hdistinct _)
  obtain ⟨c₃, roles₃, keys₃⟩ :=
    rootWithRole_eq_ok h₃ ((roles₂ _).trans (roles₁ _)) (hdistinct _)
  obtain ⟨c₄, roles₄, keys₄⟩ :=
    rootWithRole_eq_ok h₄ ((roles₃ _).trans ((roles₂ _).trans (roles₁ _))) (hdistinct _)
  have hroles (role : String) := (roles₄ role).trans (by rw [roles₃, roles₂, roles₁])
  have hkeys (keyid : String) := (keys₄ keyid).trans (by rw [keys₃, keys₂, keys₁])
  refine ⟨c₄.trans (c₃.trans (c₂.trans c₁)), ?_, ?_, fun keyid key hget => ?_⟩
  · simp only [TOP_LEVEL_POLICIES, List.map_cons, List.map_nil, List.forall_mem_cons, hroles]
    simp [ROOT_POLICY, TARGETS_POLICY, SNAPSHOT_POLICY, TIMESTAMP_POLICY, ROOT, TARGETS, SNAPSHOT,
      TIMESTAMP]
  · simp only [TOP_LEVEL_POLICIES, List.map_cons, List.map_nil, List.forall_mem_cons, hkeys]
    grind
  · have hempty : (Table.get ([] : Table String String) keyid) = none := rfl
    rw [hkeys] at hget
    grind

/-- Whoever founds the repository writes the first root. -/
theorem initialise_rooted (hs : Informed s) (hsigned : SignedBy backend s)
    (hdistinct : backend.Distinct) :
    (initialise out).Ensures s
      (fun _ s' => ∃ md root, Rooted backend md s' ∧ md.signed = .root root ∧
        root.Lists backend ∧ md.version = lastVersion ROOT s.dir.log + 1)
      (fun _ => True) (fun _ => True) := by
  refine .read_bind (.lift_bind trivial fun _ hfresh => ?_)
  have hfresh : s.repo.version ROOT = 0 := Fallible.ensure_eq_ok.mp hfresh
  have hadds : (edit out ROOT (rootChange s.repo.backend)).Ensures s _ _ _ :=
    edit_added (R := fun _ => True) (K := fun _ => True) hs.toReads (fun md signed _ hsigned => by
      obtain ⟨root, hroot⟩ := rootChange_eq_ok hsigned
      obtain rfl := Option.some.inj hroot
      exact ⟨⟨rfl, nofun, nofun, nofun, nofun, nofun⟩, trivial, fun _ _ _ => trivial⟩)
      (.inl trivial)
  have hroot :=
    hadds.and (((edit_keeps close_signedBy _) s hsigned).mono_killed fun _ _ => trivial)
  refine .bind (hroot.mono_raised fun _ _ => trivial) ?_
  rintro - s₁ ⟨⟨md, hopen, hwritten⟩, hsigned₁⟩
  obtain rfl : Metadata.initial ROOT = md := by
    rw [Instance.openRole, if_pos hfresh] at hopen
    exact Except.ok.inj hopen
  rw [hsigned.backend] at hwritten
  obtain ⟨hskip, -⟩ | ⟨signed, hchange, -, hadded⟩ := hwritten
  · obtain ⟨root, hroot, -⟩ := lists_of_rootChange hdistinct hskip
    cases hroot
  obtain ⟨root, hroot, hlists⟩ := lists_of_rootChange hdistinct hchange
  obtain rfl := Option.some.inj hroot
  obtain ⟨md, hlast, hmd, hversion⟩ := hadded.toExtended.lastOf_self
  have hrest : (do edit out TARGETS unchanged; publish out : Work β Unit).Keeps
      (Rooted backend md) :=
    .bind (edit_keeps (fun md => close_rooted (by decide) md) _) fun _ =>
      publish_keeps fun _ hrole md => close_rooted hrole md
  exact ((hrest s₁ ⟨hsigned₁, hlast⟩).mono fun _ s' h =>
    ⟨md, root, h, hmd, hlists, hversion (by decide)⟩).mono_raised (fun _ _ => trivial)
      |>.mono_killed fun _ _ => trivial

end DistPlatform.Core
