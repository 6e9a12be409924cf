import DistPlatform.Core.Succession

/-!
# What one edit touches

An operation closes one role after the other. Each close replaces the file that its own role
opens and leaves what every other role opens as it was, from any state of the instance and the
directory; and it raises before it has written anything.

## Main definitions

* `Session.opens` — the metadata a role opens.
* `Leaves` — what is left as it was, some roles apart.
* `ClosedAs` — what a close that returns has done.
* `Entry` — a target that a role lists.
-/

namespace DistPlatform.Core

open DistPlatform

variable {β : Type}

def Session.opens (s : Session β) (role : String) : Except RepositoryError Metadata :=
  s.repo.openRole s.dir role

/-- Everything but what some roles open, their versions, and the payloads. -/
structure Leaves (roles : List String) (s s' : Session β) : Prop where
  opens : ∀ role ∉ roles, s'.opens role = s.opens role
  versions : ∀ role ∉ roles, s'.repo.versions.get role = s.repo.versions.get role
  backend : s'.repo.backend = s.repo.backend
  policies : s'.repo.policies = s.repo.policies
  appRoles : s'.repo.appRoles = s.repo.appRoles

/-- The role opens the closed content, signed with the keys of the backend. -/
structure ClosedAs (role : String) (signed : Signed) (s s' : Session β) : Prop extends
    Leaves [role] s s' where
  payloads : s'.dir.payloads = s.dir.payloads
  keyed : Keyed role s
  version : s'.repo.version role = s.repo.version role + 1
  opened : ∃ md, s'.opens role = .ok md ∧ md.signed = signed ∧
    md.version = s.repo.version role + 1 ∧ md.signatures = s.repo.backend.keyids role

def IsPublicationError (e : RepositoryError) : Prop := ∃ message, e = .PublicationError message

section Steps

variable {out : Outside β} {s s' s'' : Session β} {role : String} {roles roles' : List String}
  {signed : Signed}

theorem Leaves.refl (s : Session β) : Leaves roles s s :=
  ⟨fun _ _ => rfl, fun _ _ => rfl, rfl, rfl, rfl⟩

theorem Leaves.trans (h : Leaves roles s s') (h' : Leaves roles' s' s'') :
    Leaves (roles ++ roles') s s'' where
  opens role hrole := by
    rw [List.mem_append, not_or] at hrole
    rw [h'.opens role hrole.2, h.opens role hrole.1]
  versions role hrole := by
    rw [List.mem_append, not_or] at hrole
    rw [h'.versions role hrole.2, h.versions role hrole.1]
  backend := h'.backend.trans h.backend
  policies := h'.policies.trans h.policies
  appRoles := h'.appRoles.trans h.appRoles

theorem Leaves.keyed_iff (h : Leaves roles s s') (role : String) : Keyed role s' ↔ Keyed role s := by
  rw [Keyed, Keyed, h.backend, h.policies]

theorem opens_error {e : RepositoryError} (h : s.opens role = .error e) :
    ∃ name, e = .FileNotFoundError name := by
  unfold Session.opens Instance.openRole at h
  split at h
  · cases h
  · split at h
    · cases h
    · exact ⟨_, (Except.error.inj h).symm⟩

/-- A file that is no version of a role does not change what the role opens. -/
theorem openRole_put {repo : Instance} {dir : Directory β} {name : String} {md : Metadata}
    (hname : ∀ version, filename role version ≠ name) :
    repo.openRole (dir.put name md) role = repo.openRole dir role := by
  unfold Instance.openRole
  rw [get_put_metadata, if_neg (hname _)]

/-- The version of one role does not change what another opens. -/
theorem openRole_setVersion {other : String} {version : Nat} (hne : other ≠ role) :
    (s.setVersion role version).opens other = s.opens other := by
  have hversion : (s.setVersion role version).repo.version other = s.repo.version other := by
    rw [version_setVersion, if_neg hne]
  unfold Session.opens Instance.openRole
  rw [hversion]
  rfl

theorem openRole_of_get {md : Metadata} {version : Nat} (h : s.repo.version role = version + 1)
    (hget : s.dir.metadata.get (filename role (version + 1)) = some md) :
    s.opens role = .ok md := by
  rw [Session.opens, Instance.openRole, h, if_neg (Nat.succ_ne_zero _), hget]

/-- The write puts the file where it belongs, and a copy where it is the root. -/
theorem writeMetadata_ends {version : Nat} (md : Metadata) :
    (writeMetadata role version md : Work β Unit).Ends s
      (fun _ s' => s'.repo = s.repo ∧ s'.dir.payloads = s.dir.payloads ∧
        s'.dir.metadata.get (filename role version) = some md ∧
        ∀ other ≠ role, ∀ repo : Instance,
          repo.openRole s'.dir other = repo.openRole s.dir other)
      (fun _ _ => False) (fun _ => True) := by
  refine .bind (Q := fun _ s' => s' = { s with dir := s.dir.put (filename role version) md })
    (.write trivial rfl) ?_
  rintro - s' rfl
  have hother : ∀ other ≠ role, ∀ v, filename other v ≠ filename role version :=
    fun other hne v heq => hne (role_of_filename heq)
  split
  · refine .write trivial ⟨rfl, rfl, ?_, fun other hne repo => ?_⟩
    · rw [get_put_metadata, if_neg (filename_ne_root version), get_put_metadata, if_pos rfl]
    · rw [openRole_put fun v => filename_ne_root v, openRole_put (hother other hne)]
  · refine .pure ⟨rfl, rfl, ?_, fun other hne repo => openRole_put (hother other hne)⟩
    rw [get_put_metadata, if_pos rfl]

/-- `close` replaces what its role opens, or raises because of keys before it writes. -/
theorem close_ends (md : Metadata) :
    (close out role md).Ends s (fun _ s' => ClosedAs role md.signed s s')
      (fun e s' => s' = s ∧ ¬ Keyed role s ∧ IsPublicationError e) (fun _ => True) := by
  refine .read_bind ?_
  split
  next hpolicy =>
    refine .raise ⟨rfl, ?_, _, rfl⟩
    rintro ⟨policy, hsome, -⟩
    simp [hpolicy] at hsome
  next policy hpolicy =>
    dsimp only
    split
    next hfew =>
      refine .raise ⟨rfl, ?_, _, rfl⟩
      rintro ⟨policy', hsome, hle⟩
      obtain rfl : policy = policy' := Option.some.inj (hpolicy.symm.trans hsome)
      omega
    next hkeys =>
      refine .bind ((writeMetadata_ends _).mono (fun _ _ h => h) (fun _ _ h => h.elim) fun _ h => h) ?_
      rintro - s' ⟨hrepo, hpayloads, hget, hothers⟩
      have hversion : (s'.setVersion role (s.repo.version role + 1)).repo.version role =
          s.repo.version role + 1 := by
        rw [version_setVersion, if_pos rfl]
      refine .update ⟨⟨fun other hother => ?_, fun other hother => ?_, ?_, ?_, ?_⟩, hpayloads,
        ⟨policy, hpolicy, by omega⟩, hversion, _, openRole_of_get hversion hget, rfl, rfl, rfl⟩
      · have hne : other ≠ role := by simpa using hother
        rw [openRole_setVersion hne, Session.opens, hothers other hne, hrepo, Session.opens]
      · rw [Session.setVersion, Table.get_put_of_ne _ _ (by simpa using hother), hrepo]
      · rw [Session.setVersion, hrepo]
      · rw [Session.setVersion, hrepo]
      · rw [Session.setVersion, hrepo]

/-- An edit leaves everything where its change aborts, and closes its role where it gives new
content. What it raises it raises before it writes. -/
theorem edit_ends (change : Metadata → Except RepositoryError (Option Signed)) :
    (edit out role change).Ends s
      (fun _ s' => ∃ md, s.opens role = .ok md ∧
        (change md = .ok none ∧ s' = s ∨
          ∃ signed, change md = .ok (some signed) ∧ ClosedAs role signed s s'))
      (fun e s' => s' = s ∧ (s.opens role = .error e ∨ ∃ md, s.opens role = .ok md ∧
        (change md = .error e ∨ ∃ signed, change md = .ok (some signed) ∧
          ¬ Keyed role s ∧ IsPublicationError e)))
      (fun _ => True) := by
  refine .read_bind (.lift_bind (fun e he => ⟨rfl, .inl he⟩) fun md hmd => ?_)
  refine .lift_bind (fun e he => ⟨rfl, .inr ⟨md, hmd, .inl he⟩⟩) fun signed hsigned => ?_
  cases signed with
  | none => exact .pure ⟨md, hmd, .inl ⟨hsigned, rfl⟩⟩
  | some signed =>
    refine (close_ends { md with signed }).mono (fun _ s' h => ⟨md, hmd, .inr ⟨signed, hsigned, h⟩⟩)
      (fun e s' h => ⟨h.1, .inr ⟨md, hmd, .inr ⟨signed, hsigned, h.2⟩⟩⟩) fun _ h => h

/-! ## Publishing touches the snapshot and the timestamp -/

/-- An edit that returns leaves all roles but its own, and the payloads. -/
theorem edit_leaves (change : Metadata → Except RepositoryError (Option Signed)) :
    (edit out role change).Ends s
      (fun _ s' => Leaves [role] s s' ∧ s'.dir.payloads = s.dir.payloads)
      (fun _ _ => True) (fun _ => True) := by
  refine (edit_ends change).mono ?_ (fun _ _ _ => trivial) fun _ h => h
  rintro - s' ⟨md, -, ⟨-, rfl⟩ | ⟨signed, -, hclosed⟩⟩
  · exact ⟨.refl s', rfl⟩
  · exact ⟨hclosed.toLeaves, hclosed.payloads⟩

theorem publish_leaves :
    (publish out).Ends s
      (fun _ s' => Leaves [SNAPSHOT, TIMESTAMP] s s' ∧ s'.dir.payloads = s.dir.payloads)
      (fun _ _ => True) (fun _ => True) := by
  refine .bind (.read_bind (edit_leaves _)) ?_
  rintro - s₁ ⟨hsnapshot, hpayloads⟩
  refine .read_bind ((edit_leaves _).mono ?_ (fun _ _ h => h) fun _ h => h)
  rintro - s₂ ⟨htimestamp, hpayloads'⟩
  exact ⟨hsnapshot.trans htimestamp, hpayloads'.trans hpayloads⟩

/-! ## Listing a target -/

/-- The role opens targets metadata that lists the path so. -/
def Entry (s : Session β) (role path : String) (file : TargetFile) : Prop :=
  ∃ md targets, s.opens role = .ok md ∧ md.signed = .targets targets ∧
    targets.targets.get path = some file

theorem Entry.unique {path : String} {file file' : TargetFile} (h : Entry s role path file)
    (h' : Entry s role path file') : file = file' := by
  obtain ⟨md, targets, hopens, hsigned, hget⟩ := h
  obtain ⟨md', targets', hopens', hsigned', hget'⟩ := h'
  obtain rfl : md = md' := Except.ok.inj (hopens.symm.trans hopens')
  obtain rfl : targets = targets' := Signed.targets.inj (hsigned.symm.trans hsigned')
  exact Option.some.inj (hget.symm.trans hget')

theorem Leaves.entry (h : Leaves roles s s') {path : String} {file : TargetFile}
    (hrole : role ∉ roles) (hentry : Entry s role path file) : Entry s' role path file := by
  obtain ⟨md, targets, hopens, hsigned, hget⟩ := hentry
  exact ⟨md, targets, by rw [h.opens role hrole, hopens], hsigned, hget⟩

/-- Listing a file under a path lists it there, and keeps the other entries. -/
theorem listing_ends (path : String) (file : TargetFile) :
    (edit out role (onTargets fun targets =>
        { targets with targets := targets.targets.put path file })).Ends s
      (fun _ s' => Leaves [role] s s' ∧ s'.dir.payloads = s.dir.payloads ∧
        Entry s' role path file ∧
        ∀ other file', other ≠ path → Entry s role other file' → Entry s' role other file')
      (fun _ _ => True) (fun _ => True) := by
  refine (edit_ends _).mono ?_ (fun _ _ _ => trivial) fun _ h => h
  rintro - s' ⟨md, hopens, hchange⟩
  obtain ⟨hnone, -⟩ | ⟨signed, hsome, hclosed⟩ := hchange
  · unfold onTargets at hnone
    split at hnone <;> cases hnone
  · obtain ⟨targets, hmd, rfl⟩ := onTargets_eq_ok hsome
    obtain ⟨md', hopens', hsigned', -⟩ := hclosed.opened
    refine ⟨hclosed.toLeaves, hclosed.payloads, ⟨md', _, hopens', hsigned',
      Table.get_put_self _ _ _⟩, fun other file' hne hentry => ?_⟩
    obtain ⟨md₀, targets₀, hopens₀, hsigned₀, hget⟩ := hentry
    obtain rfl : md = md₀ := Except.ok.inj (hopens.symm.trans hopens₀)
    obtain rfl : targets = targets₀ := Signed.targets.inj (hmd.symm.trans hsigned₀)
    exact ⟨md', _, hopens', hsigned', by rw [Table.get_put_of_ne _ _ hne, hget]⟩

/-- A payload's place names its path. -/
theorem path_of_payloadPath_sha256 (out : Outside β) {path path' : String} {payload payload' : β}
    (h : payloadPath path (out.sha256 payload) = payloadPath path' (out.sha256 payload')) :
    path = path' := by
  rw [digest_of_payloadPath (out.sha256_hex payload) (out.sha256_hex payload') h] at h
  exact path_of_payloadPath (fun hc => (out.sha256_hex _ _ hc).1 rfl) h

end Steps

end DistPlatform.Core
