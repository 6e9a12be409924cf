import DistPlatform.Core.Closing
import DistPlatform.Core.Repeats
import DistPlatform.Core.Restart

/-!
# Roles that a fresh instance overlooks

The files of a role with a line feed in its name are not found again. An instance that wrote
them reports their versions, a fresh one does not; so an operation on another application keeps
their entries of the snapshot in either case only because `do_snapshot` keeps what is not
reported to it, and because an instance that gets through an operation has nothing newer to
report.

## Main definitions

* `Untouched` — what an operation on other roles leaves of a role.
* `Missed` — a role that a fresh instance does not find.
* `Level`, `Behind` — such a role is reported as the snapshot records it, or as it was before.
* `Steady` — what holds between any two operations of an instance.
* `WroteOwn`, `Ran` — what an operation makes of its own role, and what one that returns has done.
-/

namespace DistPlatform.Core

open DistPlatform
open Runs History

/-- `do_snapshot` keeps the entries that nothing is reported for, and refuses to go back. -/
structure KeepsRecorded (tuf : TufRepository) : Prop where
  unreported : ∀ signed recorded reported metas,
    tuf.snapshotMeta signed recorded reported = .ok (some metas) → ∀ file version,
      reported.get file = none → recorded.get file = some version →
        metas.get file = some version
  rollback : ∀ signed recorded reported file version version',
    recorded.get file = some version → reported.get file = some version' → version' < version →
      ∃ e, tuf.snapshotMeta signed recorded reported = .error e

variable {β : Type}

/-- The versions in the snapshot that an instance opens. -/
def Session.recorded (s : Session β) : Table String Nat :=
  match s.opens SNAPSHOT with
  | .ok md => md.signed.metas
  | .error _ => []

/-- The roles in `P` are left as they were in the directory and the instance's memory, those in
`P'` in the snapshot. -/
structure Untouched (P P' : String → Prop) (s s' : Session β) : Prop where
  files : ∀ role, P role → ∀ version,
    s'.dir.metadata.get (filename role version) = s.dir.metadata.get (filename role version)
  versions : ∀ role, P role → s'.repo.version role = s.repo.version role
  entries : ∀ role, P' role → entry s'.dir role = entry s.dir role
  recorded : ∀ role, P' role →
    s'.recorded.get (role ++ ".json") = s.recorded.get (role ++ ".json")
  appRoles : s.repo.appRoles ⊆ s'.repo.appRoles
  keyed : Keyed SNAPSHOT s' ↔ Keyed SNAPSHOT s
  backend : s'.repo.backend = s.repo.backend

/-- Every role: nothing of the snapshot is touched. -/
def Every (_ : String) : Prop := True

section Steps

variable {out : Outside β} {s s' s'' : Session β} {role : String} {P P' Q Q' : String → Prop}
  {md : Metadata}

theorem Untouched.refl (s : Session β) : Untouched P P' s s :=
  ⟨fun _ _ _ => rfl, fun _ _ => rfl, fun _ _ => rfl, fun _ _ => rfl, List.Subset.refl _, .rfl, rfl⟩

theorem Untouched.trans (h : Untouched P P' s s') (h' : Untouched P P' s' s'') :
    Untouched P P' s s'' where
  files role hrole version := (h'.files role hrole version).trans (h.files role hrole version)
  versions role hrole := (h'.versions role hrole).trans (h.versions role hrole)
  entries role hrole := (h'.entries role hrole).trans (h.entries role hrole)
  recorded role hrole := (h'.recorded role hrole).trans (h.recorded role hrole)
  appRoles := List.Subset.trans h.appRoles h'.appRoles
  keyed := h'.keyed.trans h.keyed
  backend := h'.backend.trans h.backend

theorem Untouched.mono (h : Untouched P P' s s') (hP : ∀ role, Q role → P role)
    (hP' : ∀ role, Q' role → P' role) : Untouched Q Q' s s' where
  files role hrole := h.files role (hP role hrole)
  versions role hrole := h.versions role (hP role hrole)
  entries role hrole := h.entries role (hP' role hrole)
  recorded role hrole := h.recorded role (hP' role hrole)
  appRoles := h.appRoles
  keyed := h.keyed
  backend := h.backend

theorem Untouched.opens (h : Untouched P P' s s') (hrole : P role) :
    s'.opens role = s.opens role := by
  unfold Session.opens Instance.openRole
  rw [h.versions role hrole, h.files role hrole]

theorem recorded_eq (h : s'.opens SNAPSHOT = s.opens SNAPSHOT) : s'.recorded = s.recorded := by
  rw [Session.recorded, Session.recorded, h]

/-- A file of another role than the snapshot. -/
theorem Untouched.put {name : String}
    (hname : ∀ other, P other ∨ other = SNAPSHOT → ∀ version, filename other version ≠ name)
    (hlast : lastOf SNAPSHOT ((name, md) :: s.dir.log) = lastOf SNAPSHOT s.dir.log) :
    Untouched P Every s { s with dir := s.dir.put name md } where
  files other hother version := by
    rw [get_put_metadata, if_neg (hname other (.inl hother) version)]
  versions _ _ := rfl
  entries other _ := by rw [entry, entry, log_put, hlast]
  recorded _ _ := by
    have hopens : ({ s with dir := s.dir.put name md } : Session β).opens SNAPSHOT =
        s.opens SNAPSHOT :=
      openRole_put (hname SNAPSHOT (.inr rfl))
    rw [recorded_eq hopens]
  appRoles := List.Subset.refl _
  keyed := .rfl
  backend := rfl

theorem Untouched.setVersion (hP : ∀ other, P other → other ≠ role) (hne : role ≠ SNAPSHOT)
    (version : Nat) : Untouched P Every s (s.setVersion role version) where
  files _ _ _ := rfl
  versions other hother := by rw [version_setVersion, if_neg (hP other hother)]
  entries _ _ := rfl
  recorded _ _ := by rw [recorded_eq (openRole_setVersion hne.symm)]
  appRoles := List.Subset.refl _
  keyed := .rfl
  backend := rfl

theorem writeVersion_untouched (hP : ∀ other, P other → other ≠ role) (hne : role ≠ SNAPSHOT)
    {version : Nat} (hversion : md.version = version) :
    (do
      writeMetadata role version md
      Process.update (Session.setVersion role version) : Work β Unit).Ensures s
      (fun _ s' => Untouched P Every s s' ∧ s'.repo.version role = version ∧
        s'.dir.metadata.get (filename role version) = some md)
      (fun s' => s' = s) (Untouched P Every s) := by
  subst hversion
  let written : Session β := { s with dir := s.dir.put (filename role md.version) md }
  have hother : ∀ other, P other ∨ other = SNAPSHOT → other ≠ role := by
    rintro other (h | rfl)
    · exact hP other h
    · exact hne.symm
  have hput : Untouched P Every s written :=
    .put (fun other h version heq => hother other h (role_of_filename heq))
      (by rw [lastOf_cons rfl, if_neg hne.symm])
  have hget : written.dir.metadata.get (filename role md.version) = some md :=
    (get_put_metadata _ _ _ _).trans (if_pos rfl)
  refine .bind (Q := fun _ s' => Untouched P Every s s' ∧
    s'.dir.metadata.get (filename role md.version) = some md) ?_ ?_
  · refine .bind (.write (.refl s) (Q := fun _ s' => s' = written) rfl) ?_
    rintro - s' rfl
    split
    · refine .write hput ⟨hput.trans (.put (fun other _ version => filename_ne_root version)
        (lastOf_cons_root md)), ?_⟩
      rw [get_put_metadata, if_neg (filename_ne_root md.version), hget]
    · exact .pure ⟨hput, hget⟩
  · rintro - s' ⟨h, hget⟩
    exact .update ⟨h.trans (.setVersion hP hne _), by rw [version_setVersion, if_pos rfl], hget⟩

/-- An edit leaves the other roles alone, and the snapshot; where it raises it has left everything
alone. -/
theorem edit_untouched (hP : ∀ other, P other → other ≠ role) (hne : role ≠ SNAPSHOT)
    (change : Metadata → Except RepositoryError (Option Signed)) :
    (edit out role change).Ensures s
      (fun _ s' => Untouched P Every s s' ∧ ∃ md, s.opens role = .ok md ∧
        (change md = .ok none ∧ s' = s ∨ ∃ md', change md = .ok (some md'.signed) ∧
          s'.repo.version role = s.repo.version role + 1 ∧
          s'.dir.metadata.get (filename role (s.repo.version role + 1)) = some md'))
      (fun s' => s' = s) (Untouched P Every s) := by
  refine .read_bind (.lift_bind rfl fun md hopens => .lift_bind rfl fun signed hchange => ?_)
  cases signed with
  | none => exact .pure ⟨.refl s, md, hopens, .inl ⟨hchange, rfl⟩⟩
  | some signed =>
    refine .read_bind ?_
    split
    · exact .raise rfl
    next policy _ =>
      dsimp only
      split
      · exact .raise rfl
      · let md' : Metadata := { md with
          signed
          version := s.repo.version role + 1
          expires := out.clock s.dir.history.length + policy.expiry
          signatures := s.repo.backend.keyids role }
        have hversion : md'.version = s.repo.version role + 1 := rfl
        exact (writeVersion_untouched hP hne hversion).mono fun _ s' h =>
          ⟨h.1, md, hopens, .inr ⟨md', hchange, h.2⟩⟩

end Steps

/-! ## Up to the point where an operation publishes -/

/-- A role that a fresh instance does not find. -/
def Missed (role : String) : Prop := ¬ Seen role

/-- A missed role that the operation is not about. -/
def Call.Other (call : Call β) (role : String) : Prop := Missed role ∧ ¬ call.Own role

/-- What an operation makes of its own role. -/
structure WroteOwn (out : Outside β) (call : Call β) (role : String) (s s' : Session β) : Prop where
  known : role ∈ s'.repo.appRoles
  version : s'.repo.version role = s.repo.version role + 1
  content : ∃ md md', s.opens role = .ok md ∧
    s'.dir.metadata.get (filename role (s.repo.version role + 1)) = some md' ∧
    ∀ e, call.effect out s.repo.backend = some e → some md'.signed = e.content role (some md.signed)

section Walk

variable {out : Outside β} {s s' : Session β} {role : String} {call : Call β}
  {Q R K : Session β → Prop} {P P' : String → Prop}

theorem ne_of_missed {other : String} (h : Missed other) (hseen : Seen role) : other ≠ role :=
  fun heq => h (heq ▸ hseen)

theorem Untouched.setPolicy {policy : RolePolicy} (happ : AppRole policy.name) :
    Untouched P P' s (s.setPolicy policy) :=
  ⟨fun _ _ _ => rfl, fun _ _ => rfl, fun _ _ => rfl, fun _ _ => rfl, List.Subset.refl _,
    keyed_setPolicy (Ne.symm (happ.ne (by decide))), rfl⟩

theorem Untouched.addAppRole : Untouched P P' s (s.addAppRole role) :=
  ⟨fun _ _ _ => rfl, fun _ _ => rfl, fun _ _ => rfl, fun _ _ => rfl, List.subset_insert _ _, .rfl,
    rfl⟩

theorem Untouched.store (path : String) (payload : β) :
    Untouched P P' s { s with dir := s.dir.store path payload } :=
  ⟨fun _ _ _ => rfl, fun _ _ => rfl, fun _ _ => rfl, fun _ _ => rfl, List.Subset.refl _, .rfl, rfl⟩

theorem Missed.cases {own : String} (h : Missed role) {appId : String}
    (hcall : call.appId = some appId) (hown : appRoleName appId = .ok own) :
    call.Other role ∨ role = own := by
  by_cases heq : role = own
  · exact .inr heq
  · refine .inl ⟨h, ?_⟩
    rintro ⟨other, hother, hrole⟩
    obtain rfl := Option.some.inj (hcall.symm.trans hother)
    exact heq (Except.ok.inj (hrole.symm.trans hown))

/-- An operation leaves the missed roles alone until it writes its own, and then it publishes. -/
theorem perform_publishes (call : Call β) (hraise : ∀ s', Untouched Missed Every s s' → R s')
    (hkill : ∀ s', Untouched call.Other Every s s' → K s')
    (hpublish : ∀ s', Untouched call.Other Every s s' →
      (∀ role, Missed role → call.Other role ∨ WroteOwn out call role s s') →
        (publish out).Ensures s' (fun _ => Q) R K) :
    (call.perform out).Ensures s (fun _ => Q) R K := by
  have hother {s' : Session β} (h : Untouched Missed Every s s') : Untouched call.Other Every s s' :=
    h.mono (fun _ => And.left) fun _ h => h
  have htop {s₁ : Session β} (h₁ : Untouched Missed Every s s₁) {top : String} (htop : Seen top)
      (hne : top ≠ SNAPSHOT) {α : Type} {next : Unit → Work β α} {Q' : α → Session β → Prop}
      {change : Metadata → Except RepositoryError (Option Signed)}
      (hnext : ∀ s', Untouched Missed Every s s' → (next ()).Ensures s' Q' R K) :
      (edit out top change >>= next).Ensures s₁ Q' R K := by
    have hedit : (edit out top change).Ensures s₁ (fun _ s' => Untouched Missed Every s s') R K :=
      (((edit_untouched (fun _ hrole => ne_of_missed hrole htop) hne change).mono fun _ s' h =>
        h₁.trans h.1).mono_raised fun s' heq => heq ▸ hraise s₁ h₁).mono_killed
          fun s' h => hkill s' (hother (h₁.trans h))
    exact hedit.bind fun _ => hnext
  -- the edit of the operation's own role is the last before it publishes
  have hown {s₁ : Session β} (h₁ : Untouched Missed Every s s₁) {appId own : String}
      (hcall : call.appId = some appId) (hrole : appRoleName appId = .ok own)
      (hmem : own ∈ s₁.repo.appRoles) {α : Type} {next : Unit → Work β α}
      {Q' : α → Session β → Prop} {change : Metadata → Except RepositoryError (Option Signed)}
      (hchange : ∀ md signed, change md = .ok signed → ∃ new, signed = some new ∧
        ∀ e, call.effect out s.repo.backend = some e → some new = e.content own (some md.signed))
      (hnext : ∀ s', (publish out).Ensures s' (fun _ => Q) R K → (next ()).Ensures s' Q' R K) :
      (edit out own change >>= next).Ensures s₁ Q' R K := by
    have hne (other : String) (h : call.Other other) : other ≠ own := fun heq =>
      h.2 ⟨appId, hcall, heq ▸ hrole⟩
    refine Process.Ensures.bind (((edit_untouched hne (AppRole.ne ⟨appId, hrole⟩ (by decide))
      change).mono_raised fun s' heq => heq ▸ hraise s₁ h₁).mono_killed
        fun s' h => hkill s' ((hother h₁).trans h)) ?_
    rintro - s₂ ⟨h₂, md, hopens, hwritten⟩
    refine hnext s₂ (hpublish s₂ ((hother h₁).trans h₂) fun role hmissed => ?_)
    refine (hmissed.cases hcall hrole).imp_right ?_
    rintro rfl
    rw [h₁.versions role hmissed] at hwritten
    rw [h₁.opens hmissed] at hopens
    obtain ⟨hnone, -⟩ | ⟨md', hsome, hversion, hget⟩ := hwritten
    · obtain ⟨_, hnew, -⟩ := hchange md _ hnone
      cases hnew
    · obtain ⟨new, hnew, heffect⟩ := hchange md _ hsome
      obtain rfl := Option.some.inj hnew
      exact ⟨h₂.appRoles hmem, hversion, md, md', hopens, hget, heffect⟩
  have htarget {appId own path : String} {payload : β} {info : ReleaseInfo}
      (hcall : call.appId = some appId) (hrole : appRoleName appId = .ok own)
      (hmem : own ∈ s.repo.appRoles)
      (heffect : ∀ e, call.effect out s.repo.backend = some e →
        e = listing out own path payload info) :
      (publishTarget out own path payload info).Ensures s (fun _ => Q) R K := by
    refine .bind (.write (hkill s (.refl s)) (Q := fun _ s' => Untouched Missed Every s s' ∧
      own ∈ s'.repo.appRoles) ⟨.store _ _, hmem⟩) fun _ s₁ h₁ => ?_
    refine hown h₁.1 hcall hrole h₁.2 (fun md signed hchange => ?_) fun _ h => h
    obtain ⟨targets, hsigned, rfl⟩ : ∃ targets, md.signed = .targets targets ∧
        signed = some (.targets { targets with
          targets := targets.targets.put path (targetFile out payload info) }) := by
      unfold onTargets at hchange
      split at hchange
      next targets hsigned => exact ⟨targets, hsigned, (Except.ok.inj hchange).symm⟩
      · cases hchange
    refine ⟨_, rfl, fun e he => ?_⟩
    rw [heffect e he, listing, hsigned]
    exact (if_pos rfl).symm
  have hdelegated (appId : String) : (delegatedRole appId : Work β String).Ensures s
      (fun role s' => s = s' ∧ appRoleName appId = .ok role ∧ role ∈ s.repo.appRoles) R K :=
    (delegatedRole_performed (K := fun _ => False) (.inl (hraise s (.refl s)))).mono_killed
      fun _ h => h.elim
  cases call with
  | initialise =>
    refine .read_bind (.lift_cases (fun _ _ => hraise s (.refl s)) fun _ _ => ?_)
    refine htop (.refl s) (by decide) (by decide) fun s₁ h₁ => ?_
    refine htop h₁ seen_targets (by decide) fun s₂ h₂ => ?_
    refine hpublish s₂ (hother h₂) fun role hrole => .inl ⟨hrole, ?_⟩
    rintro ⟨appId, hcall, -⟩
    cases hcall
  | addApp appId critical =>
    refine .bind (Q := fun _ => Q) ?_ fun _ s' h => .pure h
    refine .lift_cases (fun _ _ => hraise s (.refl s)) fun policy hpolicy =>
      .update_bind (.read_bind ?_)
    have hpolicy := appPolicy_of_lift hpolicy
    obtain ⟨hname, -⟩ := appRolePolicy_eq_ok hpolicy
    have happ : AppRole policy.name := ⟨appId, hname⟩
    have h₀ : Untouched Missed Every s (s.setPolicy policy) := .setPolicy happ
    refine .lift_cases (fun _ _ => hraise _ h₀) fun _ _ => ?_
    refine htop h₀ seen_targets (by decide) fun s₁ h₁ => .update_bind ?_
    refine hown (h₁.trans .addAppRole) rfl hname List.mem_insert_self (fun md signed hchange => ?_)
      fun s' h => h.bind fun _ s'' h'' => .pure h''
    refine ⟨md.signed, (Except.ok.inj hchange).symm, fun e he => ?_⟩
    obtain ⟨other, hother, he⟩ := Option.bind_eq_some_iff.mp he
    obtain rfl := Except.ok.inj (hpolicy.symm.trans (eq_ok_of_toOption hother))
    obtain rfl := Option.some.inj he
    refine Eq.trans ?_ ((if_neg (happ.ne (by decide))).trans (if_pos rfl)).symm
    cases hsigned : md.signed <;> simp [edited]
  | addRelease key payload info =>
    refine .bind (Q := fun _ => Q) ?_ fun _ s' h => .pure h
    refine .lift_cases (fun _ _ => hraise s (.refl s)) fun _ _ => ?_
    refine .bind (hdelegated key.appId) ?_
    rintro role s' ⟨rfl, hrole, hmem⟩
    refine (htarget rfl hrole hmem fun e he => ?_).bind fun _ s'' h'' => .pure h''
    obtain ⟨other, hother, he⟩ := Option.bind_eq_some_iff.mp he
    obtain rfl := Except.ok.inj (hrole.symm.trans (eq_ok_of_toOption hother))
    exact (Option.some.inj he).symm
  | setCurrent key =>
    refine .bind (Q := fun _ => Q) ?_ fun _ s' h => .pure h
    refine .bind (hdelegated key.appId) ?_
    rintro role s' ⟨rfl, hrole, hmem⟩
    refine .read_bind (.lift_cases (fun _ _ => hraise s (.refl s)) fun published _ => ?_)
    split
    · refine .lift_cases (fun _ _ => hraise s (.refl s)) fun _ _ => ?_
      refine .lift_cases (fun _ _ => hraise s (.refl s)) fun pointer hpointer => ?_
      refine (htarget rfl hrole hmem fun e he => ?_).bind fun _ s'' h'' => .pure h''
      obtain ⟨other, hother, he⟩ := Option.bind_eq_some_iff.mp he
      obtain ⟨pointer', hpointer', he⟩ := Option.bind_eq_some_iff.mp he
      obtain rfl := Except.ok.inj (hrole.symm.trans (eq_ok_of_toOption hother))
      obtain rfl := Except.ok.inj ((Fallible.mapError_eq_ok.mp hpointer).symm.trans
        (eq_ok_of_toOption hpointer'))
      exact (Option.some.inj he).symm
    · exact .raise (hraise s (.refl s))

end Walk

/-! ## Publishing -/

/-- The instance knows of every missed role that it has written. -/
def Known (s : Session β) : Prop :=
  ∀ role, Missed role → s.repo.version role ≠ 0 → role ∈ s.repo.appRoles

/-- The missed roles are at the versions that the snapshot records. -/
def Level (P : String → Prop) (s : Session β) : Prop :=
  ∀ role, P role → s.repo.version role ≠ 0 →
    s.recorded.get (role ++ ".json") = some (s.repo.version role)

/-- The role has yet to reach the version that the snapshot records. -/
def Behind (role : String) (s : Session β) : Prop :=
  s.repo.version role ≠ 0 ∧ ∃ version, s.recorded.get (role ++ ".json") = some version ∧
    s.repo.version role < version

/-- What a written snapshot says, and what it leaves. -/
structure NewSnapshot (metas : Table String Nat) (s s' : Session β) : Prop where
  recorded : s'.recorded = metas
  entries : ∀ role, entry s'.dir role = metas.get (role ++ ".json")
  files : ∀ role ≠ SNAPSHOT, ∀ version,
    s'.dir.metadata.get (filename role version) = s.dir.metadata.get (filename role version)
  versions : ∀ role ≠ SNAPSHOT, s'.repo.version role = s.repo.version role
  appRoles : s'.repo.appRoles = s.repo.appRoles
  keyed : Keyed SNAPSHOT s' ↔ Keyed SNAPSHOT s
  backend : s'.repo.backend = s.repo.backend

section Publishing

variable {out : Outside β} {s s' : Session β} {role : String} {md : Metadata}

theorem recorded_of_opens {metas : Table String Nat} (hopens : s.opens SNAPSHOT = .ok md)
    (hsigned : md.signed = .snapshot metas) : s.recorded = metas := by
  rw [Session.recorded, hopens]
  dsimp only
  rw [hsigned]
  rfl

theorem writeSnapshot_written {metas : Table String Nat} (hsigned : md.signed = .snapshot metas)
    {version : Nat} (hversion : s.repo.version SNAPSHOT + 1 = version)
    (hmd : md.version = version) :
    (do
      writeMetadata SNAPSHOT version md
      Process.update (Session.setVersion SNAPSHOT version) : Work β Unit).Ensures s
      (fun _ s' => NewSnapshot metas s s') (fun _ => False) (fun s' => s' = s) := by
  subst hmd
  let written : Session β := { s with dir := s.dir.put (filename SNAPSHOT md.version) md }
  refine .bind (.bind (.write rfl (Q := fun _ s' => s' = written) rfl) ?_) (Q := fun _ s' =>
    s' = written) ?_
  · rintro - s' rfl
    rw [if_neg (by decide)]
    exact .pure rfl
  rintro - s' rfl
  refine .update ⟨recorded_of_opens (openRole_of_get (by rw [version_setVersion, if_pos rfl,
    hversion]) ?_) hsigned, fun role => ?_, fun role hrole version => ?_, fun role hrole => ?_,
    rfl, .rfl, rfl⟩
  · rw [hversion]
    exact (get_put_metadata _ _ _ _).trans (if_pos rfl)
  · have hname : (filename SNAPSHOT md.version, md).1 = filename SNAPSHOT md.version := rfl
    rw [entry]
    change (lastOf SNAPSHOT (s.dir.put (filename SNAPSHOT md.version) md).log).bind _ = _
    rw [log_put, lastOf_cons hname, if_pos rfl, Option.bind_some, hsigned]
    rfl
  · exact (get_put_metadata _ _ _ _).trans (if_neg fun heq => hrole (role_of_filename heq))
  · rw [version_setVersion, if_neg hrole]

/-- `do_snapshot` by what python-tuf decides, and why it raises. -/
theorem doSnapshot_written :
    (doSnapshot out).Ensures s
      (fun _ s' => ∃ signed metas,
        out.tuf.snapshotMeta signed s.recorded s.targetsInfos = .ok metas ∧
          (metas = none ∧ s' = s ∨ ∃ after, metas = some after ∧ NewSnapshot after s s'))
      (fun s' => s' = s ∧ (Reads s → ¬ Keyed SNAPSHOT s ∨ ∃ md e,
        s.opens SNAPSHOT = .ok md ∧ md.signed = .snapshot s.recorded ∧
        out.tuf.snapshotMeta (!md.signatures.isEmpty) s.recorded s.targetsInfos = .error e))
      (fun s' => s' = s) := by
  refine .read_bind (.read_bind (.lift_cases (fun e hopen => ⟨rfl, fun hs => ?_⟩) fun md hopen => ?_))
  · obtain ⟨md, hopen', -⟩ := hs.openRole seen_snapshot
    cases hopen'.symm.trans hopen
  dsimp only
  refine .lift_cases (fun e hchange => ⟨rfl, fun hs => .inr ?_⟩) fun signed hchange => ?_
  · obtain ⟨recorded, hrecorded⟩ := snapshot_of_open hs hopen
    obtain rfl := recorded_of_opens hopen hrecorded
    simp only [hrecorded] at hchange
    split at hchange
    · cases hchange
    next e hmetas => exact ⟨md, e, hopen, hrecorded, hmetas⟩
  split at hchange
  next recorded hrecorded =>
    obtain rfl := recorded_of_opens hopen hrecorded
    split at hchange
    next metas hmetas =>
      obtain rfl := Except.ok.inj hchange
      cases metas with
      | none => exact .pure ⟨_, none, hmetas, .inl ⟨rfl, rfl⟩⟩
      | some metas =>
        refine .read_bind ?_
        split
        next hpolicy =>
          refine .raise ⟨rfl, fun _ => .inl ?_⟩
          rintro ⟨policy, hsome, -⟩
          cases hpolicy.symm.trans hsome
        next policy hpolicy =>
          dsimp only
          split
          next hfew =>
            refine .raise ⟨rfl, fun _ => .inl ?_⟩
            rintro ⟨policy', hsome, hle⟩
            obtain rfl := Option.some.inj (hpolicy.symm.trans hsome)
            omega
          · let md' : Metadata := { md with
              signed := .snapshot metas
              version := s.repo.version SNAPSHOT + 1
              expires := out.clock s.dir.history.length + policy.expiry
              signatures := s.repo.backend.keyids SNAPSHOT }
            have hsigned : md'.signed = .snapshot metas := rfl
            exact ((writeSnapshot_written hsigned rfl rfl).mono fun _ s' hs' =>
              ⟨_, some metas, hmetas, .inr ⟨metas, rfl, hs'⟩⟩).mono_raised fun _ h => h.elim
    · cases hchange
  · cases hchange

theorem ne_timestamp_of_missed (role : String) (h : Missed role) : role ≠ TIMESTAMP :=
  ne_of_missed h seen_timestamp

/-- Publishing is `do_snapshot`, and then nothing that the missed roles have to do with. -/
theorem publish_after_snapshot {Q : Session β → Prop} {R K : Session β → Prop}
    (hsnapshot : (doSnapshot out).Ensures s (fun _ => Q) R K)
    (hQ : ∀ s₁ s₂, Q s₁ → Untouched Missed Every s₁ s₂ → Q s₂)
    (hR : ∀ s₁, Q s₁ → R s₁) (hK : ∀ s₁, Q s₁ → K s₁) :
    (publish out).Ensures s (fun _ => Q) R K := by
  refine hsnapshot.bind fun _ s₁ h₁ => .read_bind ?_
  exact (((edit_untouched ne_timestamp_of_missed (by decide) _).mono fun _ s₂ h₂ =>
    hQ s₁ s₂ h₁ h₂.1).mono_raised fun s₂ heq => heq ▸ hR s₁ h₁).mono_killed
      fun s₂ h₂ => hK s₂ (hQ s₁ s₂ h₁ h₂)

/-- After `do_snapshot` the missed roles are level, and they were not behind. -/
theorem doSnapshot_level (hknown : Known s) (hlists : ListsReported out.tuf)
    (hrefuses : RefusesRollback out.tuf) (hkeeps : KeepsRecorded out.tuf) :
    (doSnapshot out).Ensures s
      (fun _ s' => (∀ role, Missed role → ¬ Behind role s) ∧ Known s' ∧ Level Missed s')
      (fun s' => s' = s ∧ (Informed s → ¬ Keyed SNAPSHOT s ∨ ∃ role, Missed role ∧ Behind role s))
      (fun _ => True) := by
  have hreported {role : String} (hrole : Missed role) (hversion : s.repo.version role ≠ 0) :
      s.targetsInfos.get (role ++ ".json") = some (s.repo.version role) :=
    targetsInfos_known (.inr (hknown role hrole hversion)) (Nat.pos_of_ne_zero hversion)
  have hbehind {signed : Bool} {metas : Option (Table String Nat)}
      (hmetas : out.tuf.snapshotMeta signed s.recorded s.targetsInfos = .ok metas) (role : String)
      (hrole : Missed role) : ¬ Behind role s := by
    rintro ⟨hversion, version, hrecorded, hlt⟩
    obtain ⟨e, he⟩ := hkeeps.rollback signed _ _ _ _ _ hrecorded (hreported hrole hversion) hlt
    cases he.symm.trans hmetas
  refine ((doSnapshot_written.mono ?_).mono_raised ?_).mono_killed fun _ _ => trivial
  · rintro - s' ⟨signed, metas, hmetas, ⟨rfl, rfl⟩ | ⟨after, rfl, hnew⟩⟩
    · exact ⟨hbehind hmetas, hknown, fun role hrole hversion =>
        ((out.tuf.snapshot_skips _ _ _).mp hmetas).2 _ _ (hreported hrole hversion)⟩
    · refine ⟨hbehind hmetas, fun role hrole hversion => ?_, fun role hrole hversion => ?_⟩
      all_goals
        have hne := ne_of_missed hrole seen_snapshot
        rw [hnew.versions role hne] at hversion
      · rw [hnew.appRoles]
        exact hknown role hrole hversion
      · rw [hnew.recorded, hnew.versions role hne]
        exact hlists _ _ _ _ hmetas _ _ (hreported hrole hversion)
  · rintro s' ⟨rfl, hraised⟩
    refine ⟨rfl, fun hs => (hraised hs.toReads).imp_right ?_⟩
    rintro ⟨md, e, hopen, hrecorded, hmetas⟩
    obtain ⟨file, version, version', hget, hmem, hlt⟩ := hrefuses.snapshot _ _ _ _ hmetas
    obtain ⟨role, hrole, rfl, rfl, hpos⟩ := mem_targetsInfos hmem
    by_cases hseen : Seen role
    · -- a role that is seen is reported at its last version
      have hinfo := targetsInfos_known hrole hpos
      have htargets : (lastOf TARGETS s'.dir.log).isSome := by
        obtain rfl | hrole := hrole
        · cases hlast : lastOf TARGETS s'.dir.log with
          | none => simp [hs.versions TARGETS seen_targets, lastVersion, hlast] at hpos
          | some md => rfl
        · exact isSome_targets_of_mem ((hs.appRoles role).mp hrole)
      obtain ⟨other, hother, -, hlast⟩ := recorded_of_open hs htargets hopen hrecorded hget
      obtain rfl := snapshotFile_injective hother
      obtain ⟨reported, hget', hle⟩ := hlast hseen
      obtain rfl := Option.some.inj (hinfo.symm.trans hget')
      omega
    · obtain rfl | hrole := hrole
      · exact absurd seen_targets hseen
      · exact ⟨role, hseen, Nat.ne_of_gt hpos, version, hget, hlt⟩

end Publishing

/-! ## Between two operations -/

/-- What holds between any two operations of an instance: where a missed role is not level, no
snapshot can be written. -/
structure Steady (s : Session β) : Prop where
  known : Known s
  level : Level Missed s ∨ ¬ Keyed SNAPSHOT s ∨ ∃ role, Missed role ∧ Behind role s

section Between

variable {out : Outside β} {s s' : Session β} {call : Call β} {backend : SignerBackend}
  {dir : Directory β} {repo : Instance} {P : String → Prop}

theorem Known.untouched (h : Known s) (hs : Untouched Missed Every s s') : Known s' := by
  intro role hrole hversion
  rw [hs.versions role hrole] at hversion
  exact hs.appRoles (h role hrole hversion)

theorem Level.untouched (h : Level P s) (hs : Untouched P P s s') : Level P s' := by
  intro role hrole hversion
  rw [hs.versions role hrole] at hversion ⊢
  rw [hs.recorded role hrole]
  exact h role hrole hversion

theorem Untouched.behind_iff {role : String} (hs : Untouched P Every s s') (hrole : P role) :
    Behind role s' ↔ Behind role s := by
  rw [Behind, Behind, hs.versions role hrole, hs.recorded role trivial]

theorem Steady.untouched (h : Steady s) (hs : Untouched Missed Every s s') : Steady s' :=
  ⟨h.known.untouched hs, h.level.imp (·.untouched (hs.mono (fun _ h => h) fun _ _ => trivial))
    (.imp (fun hkeyed hkeyed' => hkeyed (hs.keyed.mp hkeyed')) fun ⟨role, hrole, hbehind⟩ =>
      ⟨role, hrole, (hs.behind_iff hrole).mpr hbehind⟩)⟩

theorem publish_steady (hknown : Known s) (hlists : ListsReported out.tuf)
    (hrefuses : RefusesRollback out.tuf) (hkeeps : KeepsRecorded out.tuf) :
    (publish out).Ensures s
      (fun _ s' => (∀ role, Missed role → ¬ Behind role s) ∧ Known s' ∧ Level Missed s')
      (fun s' => Informed s' → Steady s') (fun _ => True) := by
  refine publish_after_snapshot ((doSnapshot_level hknown hlists hrefuses hkeeps).mono_raised ?_)
    ?_ ?_ fun _ _ => trivial
  · rintro s' ⟨rfl, hraised⟩ hs
    exact ⟨hknown, .inr (hraised hs)⟩
  · exact fun _ _ h hs => ⟨h.1, h.2.1.untouched hs, h.2.2.untouched
      (hs.mono (fun _ h => h) fun _ _ => trivial)⟩
  · exact fun _ h _ => ⟨h.2.1, .inl h.2.2⟩

/-- An operation that returns leaves the missed roles level, and one that raises is no worse off
than before. -/
theorem perform_steady (hs : Steady s) (hlists : ListsReported out.tuf)
    (hrefuses : RefusesRollback out.tuf) (hkeeps : KeepsRecorded out.tuf) (call : Call β) :
    (call.perform out).Ensures s
      (fun _ s' => (∀ role, call.Other role → ¬ Behind role s) ∧
        (∀ role, call.Own role → Missed role → ∀ version,
          s.recorded.get (role ++ ".json") = some version → version ≤ s.repo.version role + 1) ∧
        Known s' ∧ Level Missed s')
      (fun s' => Informed s' → Steady s') (fun _ => True) := by
  refine perform_publishes call (fun s' h _ => hs.untouched h) (fun _ _ => trivial)
    fun s₁ h₁ hown => ?_
  have hknown₁ : Known s₁ := fun role hrole hversion => by
    obtain hother | hwrote := hown role hrole
    · rw [h₁.versions role hother] at hversion
      exact h₁.appRoles (hs.known role hrole hversion)
    · exact hwrote.known
  refine (publish_steady hknown₁ hlists hrefuses hkeeps).mono fun _ s₂ ⟨hbehind, hafter⟩ =>
    ⟨fun role hother h => hbehind role hother.1 ((h₁.behind_iff hother).mpr h),
      fun role hcall hmissed version hrecorded => ?_, hafter⟩
  have hwrote := (hown role hmissed).resolve_left fun h => h.2 hcall
  rw [← h₁.recorded role trivial] at hrecorded
  rw [← hwrote.version]
  by_contra hlt
  exact hbehind role hmissed ⟨by rw [hwrote.version]; exact Nat.succ_ne_zero _, version, hrecorded,
    Nat.lt_of_not_le hlt⟩

theorem versions_new (hnew : Instance.new backend dir = .ok repo) :
    repo.versions = scanVersions dir := by
  unfold Instance.new at hnew
  dsimp only at hnew
  split at hnew
  · obtain rfl := Except.ok.inj hnew
    rfl
  obtain ⟨md, -, hnew⟩ := Fallible.bind_eq_ok.mp hnew
  split at hnew
  · split at hnew
    · obtain rfl := Except.ok.inj hnew
      rfl
    · obtain ⟨policies, -, hnew⟩ := Fallible.bind_eq_ok.mp hnew
      obtain rfl := Except.ok.inj hnew
      rfl
  · cases hnew

/-- A fresh instance has not found a missed role. -/
theorem version_new (h : Recorded dir) (hnew : Instance.new backend dir = .ok repo) {role : String}
    (hrole : Missed role) : repo.version role = 0 := by
  have hscan : known (scanVersions dir) role = 0 := by
    obtain hzero | ⟨file, hfile, hmatch⟩ :=
      @scan_lower dir.metadata [] role (ne_of_missed hrole seen_timestamp)
    · exact hzero
    · exact absurd (h.matchVersioned_eq hfile hmatch).2.1 hrole
  rw [Instance.version, versions_new hnew]
  exact hscan

theorem known_new (h : Recorded dir) (hnew : Instance.new backend dir = .ok repo) :
    Known (⟨repo, dir⟩ : Session β) :=
  fun _ hrole hversion => absurd (version_new h hnew hrole) hversion

theorem level_new (h : Recorded dir) (hnew : Instance.new backend dir = .ok repo) :
    Level Missed (⟨repo, dir⟩ : Session β) :=
  fun _ hrole hversion => absurd (version_new h hnew hrole) hversion

theorem steady_of_reachable (hlists : ListsReported out.tuf) (hrefuses : RefusesRollback out.tuf)
    (hkeeps : KeepsRecorded out.tuf) {w : World β} (hw : (system out).Reachable w)
    (hrepo : w.repo = some repo) : Steady (⟨repo, w.dir⟩ : Session β) := by
  induction hw generalizing repo with
  | start h0 =>
    obtain rfl := h0
    cases hrepo
  | @step w action w' hw hstep ih =>
    have hrestartable := restartable hlists hw
    cases action with
    | start backend =>
      obtain rfl := Option.some.inj hstep
      obtain ⟨fresh, hnew, -⟩ := hrestartable.recorded.informed_new backend
      rw [hnew] at hrepo
      obtain rfl := Option.some.inj hrepo
      exact ⟨known_new hrestartable.recorded hnew, .inl (level_new hrestartable.recorded hnew)⟩
    | call call budget =>
      obtain ⟨before, hbefore, rfl⟩ := Option.map_eq_some_iff.mp hstep
      have hend := perform_steady (ih hbefore) hlists hrefuses hkeeps call budget
      have hafter := perform_restartable (hrestartable.informed before hbefore) hlists call budget
      cases hresult : call.perform out ⟨before, w.dir⟩ budget with
      | returned _ s' _ =>
        rw [hresult] at hend hrepo
        obtain rfl := Option.some.inj hrepo
        exact ⟨hend.2.2.1, .inl hend.2.2.2⟩
      | raised _ s' _ =>
        rw [hresult] at hend hrepo hafter
        obtain rfl := Option.some.inj hrepo
        exact hend (hafter.informed _ rfl)
      | killed s' =>
        rw [hresult] at hrepo
        cases hrepo

/-- The snapshot that an instance opens is the last, or the one it would begin with. -/
theorem Informed.recorded_eq_entry (hs : Informed s) {role : String} (hrole : Missed role) :
    s.recorded.get (role ++ ".json") = entry s.dir role := by
  obtain ⟨md, hopen, hlast⟩ := hs.openRole seen_snapshot
  obtain ⟨recorded, hrecorded⟩ := snapshot_of_open hs.toReads hopen
  rw [recorded_of_opens hopen hrecorded, entry]
  obtain ⟨hnone, rfl⟩ | hlast := hlast
  · obtain rfl := Signed.snapshot.inj hrecorded
    have hne : role ++ ".json" ≠ "targets.json" := fun heq =>
      ne_of_missed hrole seen_targets (snapshotFile_injective heq)
    rw [hnone, Option.bind_none, Table.get, List.lookup_cons, beq_eq_false_iff_ne.mpr hne]
    rfl
  · rw [hlast, Option.bind_some, hrecorded]
    rfl

end Between

/-! ## What an operation leaves of the missed roles -/

/-- The instance says of the roles in `P` what the last snapshot says, or nothing. -/
structure Levels (P : String → Prop) (s : Session β) : Prop where
  missed : ∀ role, P role → Missed role
  known : ∀ role, P role → s.repo.version role ≠ 0 → role ∈ s.repo.appRoles
  level : Level P s
  entries : ∀ role, P role → s.recorded.get (role ++ ".json") = entry s.dir role

section Leaving

variable {out : Outside β} {s s' : Session β} {call : Call β} {P P' : String → Prop}

theorem Levels.untouched (h : Levels P s) (hs : Untouched P P s s') : Levels P s' where
  missed := h.missed
  known role hrole hversion := by
    rw [hs.versions role hrole] at hversion
    exact hs.appRoles (h.known role hrole hversion)
  level := h.level.untouched hs
  entries role hrole := by rw [hs.recorded role hrole, hs.entries role hrole, h.entries role hrole]

theorem Levels.mono (h : Levels P s) (hP : ∀ role, P' role → P role) : Levels P' s where
  missed role hrole := h.missed role (hP role hrole)
  known role hrole := h.known role (hP role hrole)
  level role hrole := h.level role (hP role hrole)
  entries role hrole := h.entries role (hP role hrole)

theorem Informed.levels (hs : Informed s) (hknown : Known s) (hlevel : Level Missed s) :
    Levels Missed s :=
  ⟨fun _ h => h, hknown, hlevel, fun _ => hs.recorded_eq_entry⟩

/-- The new snapshot says of such a role what the one before said. -/
theorem Levels.carried (h : Levels P s) (hlists : ListsReported out.tuf)
    (hkeeps : KeepsRecorded out.tuf) {signed : Bool} {metas : Table String Nat}
    (hmetas : out.tuf.snapshotMeta signed s.recorded s.targetsInfos = .ok (some metas))
    {role : String} (hrole : P role) :
    metas.get (role ++ ".json") = s.recorded.get (role ++ ".json") := by
  by_cases hversion : s.repo.version role = 0
  · have hnone : s.targetsInfos.get (role ++ ".json") = none := by
      cases hget : s.targetsInfos.get (role ++ ".json") with
      | none => rfl
      | some version =>
        obtain ⟨other, -, hother, rfl, hpos⟩ := targetsInfos_sound hget
        obtain rfl := snapshotFile_injective hother
        omega
    cases hrecorded : s.recorded.get (role ++ ".json") with
    | some version => exact hkeeps.unreported _ _ _ _ hmetas _ _ hnone hrecorded
    | none =>
      cases hget : metas.get (role ++ ".json") with
      | none => rfl
      | some version =>
        obtain hreported | ⟨-, hsome⟩ := out.tuf.snapshot_updates _ _ _ _ hmetas _ _ hget
        · cases hnone.symm.trans hreported
        · cases hrecorded.symm.trans hsome
  · rw [h.level role hrole hversion]
    exact hlists _ _ _ _ hmetas _ _
      (targetsInfos_known (.inr (h.known role hrole hversion)) (Nat.pos_of_ne_zero hversion))

theorem NewSnapshot.untouched {metas : Table String Nat} (h : NewSnapshot metas s s')
    (hs : Levels P s) (hmetas : ∀ role, P role →
      metas.get (role ++ ".json") = s.recorded.get (role ++ ".json")) : Untouched Missed P s s' where
  files role hrole := h.files role (ne_of_missed hrole seen_snapshot)
  versions role hrole := h.versions role (ne_of_missed hrole seen_snapshot)
  entries role hrole := by rw [h.entries role, hmetas role hrole, hs.entries role hrole]
  recorded role hrole := by rw [h.recorded, hmetas role hrole]
  appRoles := h.appRoles ▸ List.Subset.refl _
  keyed := h.keyed
  backend := h.backend

/-- Publishing writes no role, and changes no entry of the level ones. -/
theorem publish_untouched (hs : Levels P s) (hlists : ListsReported out.tuf)
    (hkeeps : KeepsRecorded out.tuf) :
    (publish out).Ensures s (fun _ s' => Untouched Missed P s s') (fun _ => True)
      (Untouched Missed P s) := by
  refine publish_after_snapshot (((doSnapshot_written.mono ?_).mono_raised
    fun _ _ => trivial).mono_killed fun s' heq => heq ▸ .refl s') ?_ (fun _ _ => trivial)
      fun _ h => h
  · rintro - s' ⟨signed, metas, hmetas, ⟨-, rfl⟩ | ⟨after, rfl, hnew⟩⟩
    · exact .refl s'
    · exact hnew.untouched hs fun role => hs.carried hlists hkeeps hmetas
  · exact fun _ _ h hs₂ => h.trans (hs₂.mono (fun _ h => h) fun _ _ => trivial)

/-- An operation leaves the missed roles of other applications alone, wherever it is killed. -/
theorem perform_untouched (hs : Levels Missed s) (hlists : ListsReported out.tuf)
    (hkeeps : KeepsRecorded out.tuf) (call : Call β) :
    (call.perform out).Ensures s (fun _ s' => Untouched call.Other call.Other s s')
      (fun _ => True) (Untouched call.Other call.Other s) := by
  have hfrom {s₁ : Session β} (h : Untouched call.Other Every s s₁) :
      Untouched call.Other call.Other s s₁ :=
    h.mono (fun _ h => h) fun _ _ => trivial
  refine perform_publishes call (fun _ _ => trivial) (fun s₁ h₁ => hfrom h₁) fun s₁ h₁ _ => ?_
  have h₁ := hfrom h₁
  have hthen {s₂ : Session β} (h₂ : Untouched Missed call.Other s₁ s₂) :
      Untouched call.Other call.Other s s₂ :=
    h₁.trans (h₂.mono (fun _ => And.left) fun _ h => h)
  exact ((publish_untouched ((hs.mono fun _ => And.left).untouched h₁) hlists hkeeps).mono
    fun _ _ => hthen).mono_killed fun _ => hthen

/-! ## What it makes of its own -/

theorem WroteOwn.untouched {role : String} {s'' : Session β} (h : WroteOwn out call role s s')
    (hs : Untouched Missed P s' s'') (hmissed : Missed role) : WroteOwn out call role s s'' := by
  obtain ⟨hknown, hversion, md, md', hopens, hget, heffect⟩ := h
  exact ⟨hs.appRoles hknown, (hs.versions role hmissed).trans hversion, md, md', hopens,
    (hs.files role hmissed _).trans hget, heffect⟩

/-- An operation writes the next version of a missed role of its own, and where it is killed the
snapshot records that version or what it recorded. -/
theorem perform_wrote (hlists : ListsReported out.tuf) (call : Call β) :
    (call.perform out).Ensures s
      (fun _ s' => ∀ role, call.Own role → Missed role → WroteOwn out call role s s')
      (fun _ => True)
      (fun s' => ∀ role, call.Own role → Missed role →
        entry s'.dir role = entry s.dir role ∨
          entry s'.dir role = some (s.repo.version role + 1)) := by
  refine perform_publishes call (fun _ _ => trivial)
    (fun s₁ h₁ role _ _ => .inl (h₁.entries role trivial)) fun s₁ h₁ hown => ?_
  have hwrote (role : String) (hcall : call.Own role) (hmissed : Missed role) :
      WroteOwn out call role s s₁ := (hown role hmissed).resolve_left fun h => h.2 hcall
  let Records (s₂ : Session β) : Prop := ∀ role, call.Own role → Missed role →
    entry s₂.dir role = entry s.dir role ∨ entry s₂.dir role = some (s.repo.version role + 1)
  have hbefore : Records s₁ := fun role _ _ => .inl (h₁.entries role trivial)
  have hnone : Levels (fun _ => False) s₁ := ⟨nofun, nofun, nofun, nofun⟩
  have hsnapshot : (doSnapshot out).Ensures s₁
      (fun _ s₂ => Untouched Missed (fun _ => False) s₁ s₂ ∧ Records s₂) (fun _ => True)
      Records := by
    refine ((doSnapshot_written.mono ?_).mono_raised fun _ _ => trivial).mono_killed
      fun s₂ heq => heq ▸ hbefore
    rintro - s₂ ⟨signed, metas, hmetas, ⟨-, rfl⟩ | ⟨after, rfl, hafter⟩⟩
    · exact ⟨.refl s₂, hbefore⟩
    · refine ⟨hafter.untouched hnone nofun, fun role hcall hmissed => .inr ?_⟩
      have hversion := (hwrote role hcall hmissed).version
      rw [hafter.entries role, ← hversion]
      exact hlists _ _ _ _ hmetas _ _
        (targetsInfos_known (.inr (hwrote role hcall hmissed).known) (by omega))
  refine (publish_after_snapshot hsnapshot (fun s₂ s₃ h₂ h₃ => ⟨h₂.1.trans (h₃.mono (fun _ h => h)
    nofun), fun role hcall hmissed => ?_⟩) (fun _ _ => trivial) fun _ h => h.2).mono
      fun _ s₂ h₂ role hcall hmissed => (hwrote role hcall hmissed).untouched h₂.1 hmissed
  rw [h₃.entries role trivial]
  exact h₂.2 role hcall hmissed

/-- An operation has returned: what it did, and what it takes for that. -/
structure Ran (out : Outside β) (call : Call β) (e : Effect β) (s s' : Session β) : Prop where
  effect : call.effect out s.repo.backend = some e
  performed : Performed e s s'
  can : call.Can s
  current : ∀ key, call = .setCurrent key → ∀ role, call.Own role → s.repo.version role ≠ 0
  keyed : Keyed SNAPSHOT s ∧ Keyed TIMESTAMP s ∨ call.targetPath.isSome ∧
    ∃ role, call.Own role ∧ Missed role ∧ Repeats out role s
  others : ∀ role, call.Other role → ¬ Behind role s
  own : ∀ role, call.Own role → Missed role → ∀ version, entry s.dir role = some version →
    version ≤ s.repo.version role + 1
  wrote : ∀ role, call.Own role → Missed role → WroteOwn out call role s s'
  level : Level Missed s'

theorem Steady.ran (h : Steady s) (hs : Informed s) (hlists : ListsReported out.tuf)
    (hrefuses : RefusesRollback out.tuf) (hkeeps : KeepsRecorded out.tuf)
    {n rest : Nat} (hreturned : call.perform out s n = .returned () s' rest) :
    ∃ e, Ran out call e s s' := by
  have hsteady := perform_steady h hlists hrefuses hkeeps call n
  have hwrote := @perform_wrote _ out s hlists call n
  have hperformed := perform_performed (R := fun _ => True) (K := fun _ => True) hs hlists call
    (.inl fun _ _ => trivial) trivial (fun _ _ _ _ _ _ => trivial) n
  rw [hreturned] at hsteady hwrote hperformed
  obtain ⟨e, he, hperformed, hcan, hcurrent, hkeyed⟩ := hperformed
  obtain ⟨hothers, hown, -, hlevel⟩ := hsteady
  refine ⟨e, he, hperformed, hcan, hcurrent, hkeyed, hothers, fun role hcall hmissed version hentry =>
    hown role hcall hmissed version ?_, hwrote, hlevel⟩
  rw [hs.recorded_eq_entry hmissed, hentry]

/-- Once the missed roles are level, the snapshot records the version that was written. -/
theorem Ran.entry {e : Effect β} {role : String} (h : Ran out call e s s') (hcall : call.Own role)
    (hmissed : Missed role) : entry s'.dir role = some (s.repo.version role + 1) := by
  have hversion := (h.wrote role hcall hmissed).version
  have hrecorded := h.level role hmissed (by rw [hversion]; exact Nat.succ_ne_zero _)
  rwa [h.performed.informed.recorded_eq_entry hmissed, hversion] at hrecorded

theorem Repeats.records {role : String} (h : Repeats out role s) (hs : Informed s) :
    s.recorded.get (role ++ ".json") = some (s.repo.version role + 1) ∧
      ∀ other ≠ role, other ∈ s.repo.appRoles → s.repo.version other ≠ 0 →
        s.recorded.get (other ++ ".json") = some (s.repo.version other) := by
  obtain ⟨md, hopens, -⟩ := hs.toReads.openRole seen_snapshot
  obtain ⟨metas, hsigned⟩ := snapshot_of_open hs.toReads hopens
  rw [recorded_of_opens hopens hsigned]
  exact h.recorded hs hopens hsigned

/-- A role whose next version is recorded already is behind, or has yet to begin. -/
theorem Repeats.version {role : String} (h : Repeats out role s) (hs : Informed s)
    (hbehind : ¬ Behind role s) : s.repo.version role = 0 := by
  by_contra hne
  exact hbehind ⟨hne, _, (h.records hs).1, Nat.lt_succ_self _⟩

/-- Before an operation that gets through, and whose own role is not behind, the missed roles are
level. -/
theorem Ran.levels {e : Effect β} (h : Ran out call e s s') (hs : Informed s) (hsteady : Steady s)
    (hown : ∀ role, call.Own role → Missed role → ¬ Behind role s) : Levels Missed s := by
  refine hs.levels hsteady.known ?_
  obtain ⟨hkeyed, -⟩ | ⟨-, own, hcall, hmissed, hrepeats⟩ := h.keyed
  · refine hsteady.level.resolve_right fun hnot => ?_
    obtain hnot | ⟨role, hmissed, hbehind⟩ := hnot
    · exact hnot hkeyed
    · by_cases hcall : call.Own role
      · exact hown role hcall hmissed hbehind
      · exact h.others role ⟨hmissed, hcall⟩ hbehind
  · intro role hrole hversion
    by_cases heq : role = own
    · subst heq
      exact absurd (hrepeats.version hs (hown role hcall hmissed)) hversion
    · exact (hrepeats.records hs).2 role heq (hsteady.known role hrole hversion) hversion

end Leaving

end DistPlatform.Core
