import DistPlatform.Core.Publication

/-!
# Reference closure of publication

One lemma for each step of an operation says what it keeps when it returns, when it raises and
when it is killed; an operation puts them together in the order of its writes.

## Main definitions

* `Opened` — what `open` can give for a role.
* `pointerPayload` — the document that `set_current` stores.
-/

namespace DistPlatform.Core

open DistPlatform

/-! ## Opening a role -/

section Steps

variable {β : Type} {out : Outside β} {s : Session β} {role : String}

/-- What `open` gives: the initial metadata of a role without a version, or the last file. -/
def Opened (s : Session β) (role : String) (md : Metadata) : Prop :=
  s.repo.version role = 0 ∧ md = Metadata.initial role ∨
    0 < s.repo.version role ∧
      s.dir.metadata.get (filename role (s.repo.version role)) = some md

theorem opened_of_openRole {md : Metadata} (h : s.repo.openRole s.dir role = .ok md) :
    Opened s role md := by
  unfold Instance.openRole at h
  split at h
  next hzero => exact .inl ⟨hzero, (Except.ok.inj h).symm⟩
  next hzero =>
    split at h
    next hget => exact .inr ⟨Nat.pos_of_ne_zero hzero, Except.ok.inj h ▸ hget⟩
    · cases h

theorem initial_targets (hrole : role = TARGETS ∨ AppRole role) :
    Signed.initial role = .targets ⟨[], none⟩ := by
  obtain rfl | hrole := hrole
  · rfl
  · rw [Signed.initial, if_neg (hrole.ne (by decide)), if_neg (hrole.ne (by decide)),
      if_neg (hrole.ne (by decide))]

/-- Opened targets metadata refers only to what is on disk. -/
theorem Opened.backed (hs : Inv out s) {md : Metadata} (h : Opened s role md)
    (hrole : role = TARGETS ∨ AppRole role) :
    md.signed.Fits role ∧ Backed out s.dir md.signed := by
  obtain ⟨-, rfl⟩ | ⟨-, hget⟩ := h
  · rw [Metadata.initial, initial_targets hrole]
    refine ⟨hrole, fun path file hget => ?_, fun delegations hnone => ?_⟩
    · cases hget
    · cases hnone
  · exact ⟨hs.sound.fits role _ md hget, hs.sound.backed _ md hget⟩

/-! ## Writing and closing -/

theorem version_setVersion (s : Session β) (role other : String) (version : Nat) :
    (s.setVersion role version).repo.version other =
      if other = role then version else s.repo.version other := by
  simp only [Instance.version, Session.setVersion, Table.get_put]
  split <;> rfl

/-- The next version of a role is not on disk yet. -/
theorem Inv.fresh (hs : Inv out s) (hne : role ≠ TIMESTAMP) :
    s.dir.metadata.get (filename role (s.repo.version role + 1)) = none := by
  by_contra hsome
  have := hs.knows.upper role _ hne (Option.isSome_iff_ne_none.mpr hsome)
  omega

/-- The directory after the next version of a role is written. -/
theorem Inv.put (hs : Inv out s) {md : Metadata} (hfits : md.signed.Fits role)
    (hbacked : Backed out s.dir md.signed) (hversion : md.version = s.repo.version role + 1) :
    Sound out (s.dir.put (filename role md.version) md) ∧
      Extends out s.dir (s.dir.put (filename role md.version) md) := by
  refine hs.sound.put ?_ hbacked ?_ (.inr ⟨role, md.version, rfl⟩) ?_
  · intro other version hne heq
    have hrole : role ≠ TIMESTAMP := by
      rintro rfl
      exact filename_ne_timestamp hne version heq.symm
    rw [hversion]
    exact hs.fresh hrole
  · intro other version heq
    by_cases hrole : role = TIMESTAMP
    · by_cases hother : other = TIMESTAMP
      · rwa [hother, ← hrole]
      · subst hrole
        exact absurd heq.symm (filename_ne_timestamp hother version)
    · by_cases hother : other = TIMESTAMP
      · subst hother
        exact absurd heq (filename_ne_timestamp hrole md.version)
      · rwa [← (filename_injective hrole hother heq).1]
  · intro hname old hold
    have hrole : role = TIMESTAMP := by
      by_contra hrole
      exact filename_ne_timestamp hrole md.version hname
    have := hs.knows.timestamp old hold
    rw [hversion, hrole]
    omega

/-- The instance that wrote a version remembers it. -/
theorem Knows.setVersion (hs : Inv out s) {version : Nat}
    (hversion : version = s.repo.version role + 1) {dir : Directory β} {md : Metadata}
    (hmd : md.version = version)
    (hdir : ∀ other v, dir.metadata.get (filename other v) =
      if filename other v = filename role version then some md
      else s.dir.metadata.get (filename other v)) :
    Knows (s.setVersion role version).repo dir where
  upper other v hne hsome := by
    rw [hdir] at hsome
    rw [version_setVersion]
    split at hsome
    next heq =>
      have hrole : role ≠ TIMESTAMP := by
        rintro rfl
        exact filename_ne_timestamp hne v heq
      obtain ⟨rfl, rfl⟩ := filename_injective hne hrole heq
      rw [if_pos rfl]
    next =>
      have := hs.knows.upper other v hne hsome
      split
      next heq =>
        subst heq
        omega
      · exact this
  lower other hpos := by
    rw [version_setVersion] at hpos ⊢
    rw [hdir]
    by_cases heq : other = role
    · rw [if_pos heq, if_pos (heq ▸ rfl)]
      rfl
    · rw [if_neg heq] at hpos ⊢
      split
      · rfl
      · exact hs.knows.lower other hpos
  timestamp old hold := by
    have hname : filename TIMESTAMP 0 = "timestamp.json" := rfl
    rw [← hname, hdir] at hold
    rw [version_setVersion]
    split at hold
    next heq =>
      have hrole : TIMESTAMP = role := by
        by_contra hrole
        exact filename_ne_timestamp (Ne.symm hrole) version (heq.symm.trans hname)
      rw [if_pos hrole, ← hmd, Option.some.inj hold]
    next =>
      have hle := hs.knows.timestamp old hold
      split
      next heq =>
        rw [← heq] at hversion
        omega
      · exact hle
  appRoles := hs.knows.appRoles
  targets happ := by
    have := hs.knows.targets happ
    rw [version_setVersion]
    split
    next => omega
    · exact this

theorem atomicWrite_ensures {name : String} {md : Metadata} {Q : Unit → Session β → Prop}
    {R K : Session β → Prop} (hK : K s) (h : Q () { s with dir := s.dir.put name md }) :
    (atomicWrite name md : Work β Unit).Ensures s Q R K :=
  .write hK h

/-- `_write`, with the second file it makes for the root. -/
theorem writeMetadata_ensures (hs : Inv out s) {md : Metadata} (hfits : md.signed.Fits role)
    (hbacked : Backed out s.dir md.signed) (hversion : md.version = s.repo.version role + 1) :
    (writeMetadata role md.version md : Work β Unit).Ensures s
      (fun _ s' => s'.repo = s.repo ∧ Sound out s'.dir ∧ Extends out s.dir s'.dir ∧
        ∀ other v, s'.dir.metadata.get (filename other v) =
          if filename other v = filename role md.version then some md
          else s.dir.metadata.get (filename other v))
      (Inv out) (fun s' => Sound out s'.dir) := by
  obtain ⟨hsound, hextends⟩ := hs.put hfits hbacked hversion
  refine .bind (atomicWrite_ensures hs.sound (Q := fun _ s' =>
    s' = { s with dir := s.dir.put (filename role md.version) md }) rfl) ?_
  rintro - s' rfl
  split
  next hroot =>
    let dir := s.dir.put (filename role md.version) md
    obtain ⟨hsound', hextends'⟩ : Sound out (dir.put "root.json" md) ∧
        Extends out dir (dir.put "root.json" md) :=
      hsound.put (fun _ v _ heq => absurd heq.symm (filename_ne_root v)) (hbacked.mono hextends)
        (fun _ v heq => absurd heq.symm (filename_ne_root v)) (.inl rfl)
        (fun heq => absurd heq (by decide))
    refine atomicWrite_ensures hsound ⟨rfl, hsound', hextends.trans hextends', fun other v => ?_⟩
    rw [get_put_metadata, if_neg (filename_ne_root v), get_put_metadata]
  next => exact .pure ⟨rfl, hsound, hextends, fun other v => get_put_metadata _ _ _ _⟩

theorem grows_setVersion {s' : Session β} (hrepo : s'.repo = s.repo)
    (hextends : Extends out s.dir s'.dir) :
    Grows out s (s'.setVersion role (s.repo.version role + 1)) := by
  refine ⟨hextends, by rw [Session.setVersion, hrepo], fun other => ?_⟩
  rw [version_setVersion, hrepo]
  split
  next heq =>
    subst heq
    omega
  · exact Nat.le_refl _

/-- The next version is written and then remembered. -/
theorem writeVersion_ensures (hs : Inv out s) {md : Metadata} (hfits : md.signed.Fits role)
    (hbacked : Backed out s.dir md.signed) {version : Nat} (hmd : md.version = version)
    (hversion : version = s.repo.version role + 1) :
    (do
      writeMetadata role version md
      Process.update (Session.setVersion role version) : Work β Unit).Ensures s
      (fun _ s' => Inv out s' ∧ Grows out s s' ∧
        s'.repo.version role = s.repo.version role + 1)
      (Inv out) (fun s' => Sound out s'.dir) := by
  subst hmd
  refine .bind (writeMetadata_ensures hs hfits hbacked hversion) ?_
  rintro - s' ⟨hrepo, hsound, hextends, hdir⟩
  have hknows := Knows.setVersion hs hversion rfl hdir
  have hgrows := @grows_setVersion β out s role s' hrepo hextends
  rw [← hversion] at hgrows
  refine .update ⟨⟨hsound, ?_⟩, hgrows, ?_⟩
  · simpa only [Session.setVersion, hrepo] using hknows
  · rw [version_setVersion, if_pos rfl, hversion]

/-- `close` writes the next version of the role, or raises before it writes. -/
theorem close_ensures (hs : Inv out s) {md : Metadata} (hfits : md.signed.Fits role)
    (hbacked : Backed out s.dir md.signed) :
    (close out role md).Ensures s
      (fun _ s' => Inv out s' ∧ Grows out s s' ∧
        s'.repo.version role = s.repo.version role + 1)
      (Inv out) (fun s' => Sound out s'.dir) := by
  refine .read_bind ?_
  split
  · exact .raise hs
  next policy hpolicy =>
    dsimp only
    split
    · exact .raise hs
    · refine writeVersion_ensures hs ?_ ?_ rfl rfl
      · exact hfits
      · exact hbacked

/-- An edit closes the role with the changed content, or leaves everything as it is. -/
theorem edit_ensures (hs : Inv out s)
    {change : Metadata → Except RepositoryError (Option Signed)}
    (hchange : ∀ md signed, Opened s role md → change md = .ok (some signed) →
      signed.Fits role ∧ Backed out s.dir signed) :
    (edit out role change).Ensures s
      (fun _ s' => Inv out s' ∧ Grows out s s' ∧
        (s'.repo.version role = s.repo.version role + 1 ∨
          s = s' ∧ ∃ md, Opened s role md ∧ change md = .ok none))
      (Inv out) (fun s' => Sound out s'.dir) := by
  refine .read_bind (.lift_bind hs fun md hmd => .lift_bind hs fun signed hsigned => ?_)
  have hopened := opened_of_openRole hmd
  cases signed with
  | none => exact .pure ⟨hs, .refl s, .inr ⟨rfl, md, hopened, hsigned⟩⟩
  | some signed =>
    obtain ⟨hfits, hbacked⟩ := hchange md signed hopened hsigned
    exact (close_ensures hs hfits hbacked).mono
      fun _ s' h => ⟨h.1, h.2.1, .inl h.2.2⟩

/-! ## Publishing -/

/-- What `targets_infos` reports is the last version of a targets role. -/
theorem mem_targetsInfos {file : String} {version : Nat} (h : (file, version) ∈ s.targetsInfos) :
    ∃ role, (role = TARGETS ∨ role ∈ s.repo.appRoles) ∧ file = role ++ ".json" ∧
      s.repo.version role = version ∧ 0 < version := by
  obtain ⟨role, hrole, hinfo⟩ := List.mem_filterMap.mp h
  split at hinfo
  · cases hinfo
  · cases hinfo
  next known hzero hknown =>
    obtain ⟨rfl, rfl⟩ := Prod.mk.inj (Option.some.inj hinfo)
    refine ⟨role, ?_, rfl, by rw [Instance.version, hknown]; rfl, Nat.pos_of_ne_zero ?_⟩
    · obtain hrole | hrole := List.mem_cons.mp hrole
      · exact .inl hrole
      · exact .inr ((List.mem_insertionSort _).mp hrole)
    · rintro rfl
      exact hzero rfl

theorem targetsInfos_sound {file : String} {version : Nat}
    (h : s.targetsInfos.get file = some version) :
    ∃ role, (role = TARGETS ∨ role ∈ s.repo.appRoles) ∧ file = role ++ ".json" ∧
      s.repo.version role = version ∧ 0 < version :=
  mem_targetsInfos (Table.mem_of_get h)

theorem targetsInfos_targets (h : 0 < s.repo.version TARGETS) :
    (s.targetsInfos.get "targets.json").isSome := by
  cases hget : s.repo.versions.get TARGETS with
  | none => simp [Instance.version, hget] at h
  | some version =>
    cases version with
    | zero => simp [Instance.version, hget] at h
    | succ version =>
      rw [Session.targetsInfos, List.filterMap_cons, hget]
      rfl

/-- After `do_snapshot` there is a snapshot, and it names only files on disk. -/
theorem doSnapshot_ensures (hs : Inv out s) (htargets : 0 < s.repo.version TARGETS) :
    (doSnapshot out).Ensures s
      (fun _ s' => Inv out s' ∧ Grows out s s' ∧ 0 < s'.repo.version SNAPSHOT)
      (Inv out) (fun s' => Sound out s'.dir) := by
  refine .read_bind ((edit_ensures hs ?_).mono ?_)
  · intro md signed hopened hchange
    split at hchange
    next recorded hrecorded =>
      split at hchange
      next metas hmetas =>
        obtain ⟨metas, rfl, rfl⟩ := Option.map_eq_some_iff.mp (Except.ok.inj hchange)
        refine ⟨rfl, fun file version hget => ?_⟩
        obtain hreported | ⟨hnone, hkept⟩ :=
          out.tuf.snapshot_updates _ _ _ _ hmetas file version hget
        · obtain ⟨role, hrole, rfl, rfl, hpos⟩ := targetsInfos_sound hreported
          have hrole : role = TARGETS ∨ AppRole role := hrole.imp_right (hs.knows.appRoles role)
          obtain ⟨md, hmd⟩ := Option.isSome_iff_exists.mp (hs.knows.lower role hpos)
          obtain ⟨targets, htargets⟩ := targets_of_fits (hs.sound.fits role _ md hmd) hrole
          exact ⟨role, md, targets, rfl, ne_timestamp_of_targets hrole, hmd, htargets⟩
        · obtain ⟨-, rfl⟩ | ⟨-, hmd⟩ := hopened
          · -- the initial snapshot names the top-level targets, which are reported
            obtain rfl := Signed.snapshot.inj hrecorded
            have hfile : file = "targets.json" := by
              by_contra hne
              simp [Table.get, List.lookup_cons, beq_eq_false_iff_ne.mpr hne] at hkept
            rw [hfile] at hnone
            exact absurd (targetsInfos_targets htargets) (by simp [hnone])
          · have hbacked := hs.sound.backed _ _ hmd
            rw [hrecorded] at hbacked
            exact hbacked file version hkept
      · cases hchange
    · cases hchange
  · rintro - s' ⟨hs', hgrows, hversion | ⟨rfl, md, hopened, hskip⟩⟩
    · exact ⟨hs', hgrows, by omega⟩
    · refine ⟨hs', hgrows, ?_⟩
      obtain ⟨-, rfl⟩ | ⟨hpos, -⟩ := hopened
      · -- an unsigned snapshot is never skipped
        split at hskip
        next recorded _ =>
          split at hskip
          next metas hmetas =>
            obtain rfl := Option.map_eq_none_iff.mp (Except.ok.inj hskip)
            exact absurd ((out.tuf.snapshot_skips _ _ _).mp hmetas).1 (by decide)
          · cases hskip
        · cases hskip
      · exact hpos

theorem doTimestamp_ensures (hs : Inv out s) (hsnapshot : 0 < s.repo.version SNAPSHOT) :
    (doTimestamp out).Ensures s (fun _ s' => Inv out s' ∧ Grows out s s')
      (Inv out) (fun s' => Sound out s'.dir) := by
  refine .read_bind ((edit_ensures hs ?_).mono fun _ s' h => ⟨h.1, h.2.1⟩)
  intro md signed hopened hchange
  split at hchange
  next recorded hrecorded =>
    split at hchange
    next version hversion =>
      obtain ⟨version, rfl, rfl⟩ := Option.map_eq_some_iff.mp (Except.ok.inj hchange)
      refine ⟨rfl, ?_⟩
      rw [out.tuf.timestamp_updates _ _ _ _ hversion]
      have hinfo : s.snapshotInfo = s.repo.version SNAPSHOT := by
        unfold Session.snapshotInfo Instance.version
        cases hget : s.repo.versions.get SNAPSHOT with
        | none => simp [Instance.version, hget] at hsnapshot
        | some version => rfl
      exact hinfo ▸ hs.knows.lower SNAPSHOT hsnapshot
    · cases hchange
  · cases hchange

/-- Publishing writes the snapshot and then the timestamp. -/
theorem publish_ensures (hs : Inv out s) (htargets : 0 < s.repo.version TARGETS) :
    (publish out).Ensures s (fun _ s' => Inv out s' ∧ Grows out s s')
      (Inv out) (fun s' => Sound out s'.dir) := by
  refine .bind (doSnapshot_ensures hs htargets) ?_
  rintro - s' ⟨hs', hgrows, hsnapshot⟩
  exact (doTimestamp_ensures hs' hsnapshot).mono fun _ s'' h => ⟨h.1, hgrows.trans h.2⟩

/-! ## The operations -/

theorem onTargets_eq_ok {change : Targets → Targets} {md : Metadata} {signed : Signed}
    (h : onTargets change md = .ok (some signed)) :
    ∃ targets, md.signed = .targets targets ∧ signed = .targets (change targets) := by
  unfold onTargets at h
  split at h
  next targets htargets =>
    exact ⟨targets, htargets, (Option.some.inj (Except.ok.inj h)).symm⟩
  · cases h

/-- An edit of targets metadata by a change that refers only to what is on disk. -/
theorem editTargets_ensures (hs : Inv out s) (hrole : role = TARGETS ∨ AppRole role)
    {change : Targets → Targets}
    (hchange : ∀ targets, Backed out s.dir (.targets targets) →
      Backed out s.dir (.targets (change targets))) :
    (edit out role (onTargets change)).Ensures s
      (fun _ s' => Inv out s' ∧ Grows out s s' ∧ 0 < s'.repo.version role)
      (Inv out) (fun s' => Sound out s'.dir) := by
  refine (edit_ensures hs ?_).mono ?_
  · intro md signed hopened hmd
    obtain ⟨targets, htargets, rfl⟩ := onTargets_eq_ok hmd
    have hbacked := (hopened.backed hs hrole).2
    rw [htargets] at hbacked
    exact ⟨hrole, hchange targets hbacked⟩
  · rintro - s' ⟨hs', hgrows, hversion | ⟨-, md, -, hskip⟩⟩
    · exact ⟨hs', hgrows, by omega⟩
    · unfold onTargets at hskip
      split at hskip <;> cases hskip

/-- `edit` with an empty body. -/
theorem editUnchanged_ensures (hs : Inv out s) (hrole : role = TARGETS ∨ AppRole role) :
    (edit out role unchanged).Ensures s
      (fun _ s' => Inv out s' ∧ Grows out s s' ∧ 0 < s'.repo.version role)
      (Inv out) (fun s' => Sound out s'.dir) := by
  refine (edit_ensures hs ?_).mono ?_
  · intro md signed hopened hmd
    obtain rfl := Option.some.inj (Except.ok.inj hmd)
    exact hopened.backed hs hrole
  · rintro - s' ⟨hs', hgrows, hversion | ⟨-, md, -, hskip⟩⟩
    · exact ⟨hs', hgrows, by omega⟩
    · cases hskip

theorem initialise_ensures (hs : Inv out s) :
    (initialise out).Ensures s (fun _ s' => Inv out s') (Inv out)
      (fun s' => Sound out s'.dir) := by
  refine .read_bind (.lift_bind hs fun _ _ => .bind (edit_ensures hs ?_) ?_)
  · intro md signed hopened hchange
    split at hchange
    next root hroot =>
      obtain ⟨root, -, hroot⟩ := Fallible.bind_eq_ok.mp hchange
      obtain rfl := Option.some.inj (Fallible.pure_eq_ok.mp hroot)
      exact ⟨rfl, trivial⟩
    · cases hchange
  · rintro - s₁ ⟨hs₁, -, -⟩
    refine .bind (editUnchanged_ensures hs₁ (.inl rfl)) ?_
    rintro - s₂ ⟨hs₂, -, htargets⟩
    exact (publish_ensures hs₂ htargets).mono fun _ _ h => h.1

/-- The delegation of an application is to its own role. -/
theorem Backed.delegate {dir : Directory β} {backend : SignerBackend} {policy : RolePolicy}
    {appId : String} {keyids : List String} {targets : Targets}
    (h : Backed out dir (.targets targets)) (hname : AppRole policy.name) :
    Backed out dir (.targets (delegate backend policy appId keyids targets)) := by
  refine ⟨h.1, ?_⟩
  rintro delegations hdel name hmem
  obtain rfl := Option.some.inj hdel
  obtain ⟨row, hrow, rfl⟩ := List.mem_map.mp hmem
  obtain rfl | hrow := List.mem_cons.mp hrow
  · exact hname
  · have hrow := (List.mem_filter.mp hrow).1
    cases hold : targets.delegations with
    | none => simp [hold] at hrow
    | some old => exact h.2 old hold _ (List.mem_map_of_mem (by simpa [hold] using hrow))

theorem Inv.setPolicy (hs : Inv out s) (policy : RolePolicy) : Inv out (s.setPolicy policy) :=
  ⟨hs.sound, ⟨hs.knows.upper, hs.knows.lower, hs.knows.timestamp, hs.knows.appRoles,
    hs.knows.targets⟩⟩

theorem Inv.addAppRole (hs : Inv out s) (hrole : AppRole role)
    (htargets : 0 < s.repo.version TARGETS) : Inv out (s.addAppRole role) := by
  refine ⟨hs.sound, ⟨hs.knows.upper, hs.knows.lower, hs.knows.timestamp, fun other hmem => ?_,
    fun _ => htargets⟩⟩
  obtain rfl | hmem := List.mem_insert_iff.mp hmem
  · exact hrole
  · exact hs.knows.appRoles other hmem

theorem addApp_ensures (hs : Inv out s) (appId : String) (critical : Bool) :
    (addApp out appId critical).Ensures s (fun _ s' => Inv out s') (Inv out)
      (fun s' => Sound out s'.dir) := by
  refine .lift_bind hs fun policy hpolicy => .update_bind (.read_bind ?_)
  have hrole : AppRole policy.name := by
    refine ⟨appId, ?_⟩
    cases hok : appRolePolicy appId critical with
    | error e => simp [hok, Except.mapError] at hpolicy
    | ok policy' =>
      rw [hok] at hpolicy
      exact Except.ok.inj hpolicy ▸ (appRolePolicy_eq_ok hok).1
  have hs := hs.setPolicy policy
  refine .lift_bind hs fun _ _ => .bind (editTargets_ensures hs (.inl rfl) fun _ h =>
    h.delegate hrole) ?_
  rintro - s₁ ⟨hs₁, -, htargets⟩
  refine .update_bind (.bind (editUnchanged_ensures (hs₁.addAppRole hrole htargets)
    (.inr hrole)) ?_)
  rintro - s₂ ⟨hs₂, hgrows, -⟩
  have htargets : 0 < s₂.repo.version TARGETS :=
    Nat.lt_of_lt_of_le htargets (hgrows.versions TARGETS)
  refine .bind (publish_ensures hs₂ htargets) ?_
  rintro - s₃ ⟨hs₃, -⟩
  exact .pure hs₃

/-- Storing, listing and publishing a target of an application that has a role. -/
theorem publishTarget_ensures (hs : Inv out s) (hrole : role ∈ s.repo.appRoles) {payload : β}
    (hcollision : NoCollision out s.dir payload) (path : String) (info : ReleaseInfo) :
    (publishTarget out role path payload info).Ensures s (fun _ s' => Inv out s') (Inv out)
      (fun s' => Sound out s'.dir) := by
  have htargets := hs.knows.targets (List.ne_nil_of_mem hrole)
  let dir := s.dir.store (payloadPath path (out.sha256 payload)) payload
  have hs₁ : Inv out { s with dir } :=
    ⟨hs.sound.store hcollision path, ⟨hs.knows.upper, hs.knows.lower, hs.knows.timestamp,
      hs.knows.appRoles, hs.knows.targets⟩⟩
  refine .bind (.write hs.sound (Q := fun _ s' => s' = { s with dir }) rfl) ?_
  rintro - s' rfl
  refine .bind (editTargets_ensures hs₁ (.inr (hs.knows.appRoles role hrole)) ?_) ?_
  · -- the new target's payload has just been stored
    intro targets hbacked
    refine ⟨fun other file hget => ?_, hbacked.2⟩
    dsimp only at hget
    rw [Table.get_put] at hget
    split at hget
    next heq =>
      obtain rfl := Option.some.inj hget
      exact ⟨payload, heq ▸ Table.get_put_self _ _ _, rfl, rfl⟩
    · exact hbacked.1 other file hget
  · rintro - s₂ ⟨hs₂, hgrows, -⟩
    have htargets : 0 < s₂.repo.version TARGETS :=
      Nat.lt_of_lt_of_le htargets (hgrows.versions TARGETS)
    exact (publish_ensures hs₂ htargets).mono fun _ _ h => h.1

theorem delegatedRole_ensures (hs : Inv out s) (appId : String) :
    (delegatedRole appId : Work β String).Ensures s
      (fun role s' => s = s' ∧ role ∈ s.repo.appRoles) (Inv out)
      (fun s' => Sound out s'.dir) := by
  refine .lift_bind hs fun role hrole => .read_bind (.lift_bind hs fun _ hmem => ?_)
  exact .pure ⟨rfl, Fallible.ensure_eq_ok.mp hmem⟩

theorem addRelease_ensures (hs : Inv out s) (key : TargetKey) {payload : β}
    (hcollision : NoCollision out s.dir payload) (info : ReleaseInfo) :
    (addRelease out key payload info).Ensures s (fun _ s' => Inv out s') (Inv out)
      (fun s' => Sound out s'.dir) := by
  refine .lift_bind hs fun _ _ => .bind (delegatedRole_ensures hs key.appId) ?_
  rintro role s' ⟨rfl, hrole⟩
  exact .bind (publishTarget_ensures hs hrole hcollision _ _) fun _ _ h => .pure h

/-- The document `set_current` stores. -/
def pointerPayload (out : Outside β) (key : TargetKey) : Option β :=
  match CurrentRelease.make key.path key.version with
  | .ok pointer => some (out.dumps pointer.toJson)
  | .error _ => none

theorem setCurrent_ensures (hs : Inv out s) (key : TargetKey)
    (hcollision : ∀ payload, pointerPayload out key = some payload →
      NoCollision out s.dir payload) :
    (setCurrent out key).Ensures s (fun _ s' => Inv out s') (Inv out)
      (fun s' => Sound out s'.dir) := by
  refine .bind (delegatedRole_ensures hs key.appId) ?_
  rintro role s' ⟨rfl, hrole⟩
  refine .read_bind (.lift_bind hs fun published _ => ?_)
  split
  next targets _ =>
    refine .lift_bind hs fun _ _ => .lift_bind hs fun pointer hpointer => ?_
    have hpayload : pointerPayload out key = some (out.dumps pointer.toJson) := by
      unfold pointerPayload
      cases hok : CurrentRelease.make key.path key.version with
      | error e => simp [hok, Except.mapError] at hpointer
      | ok pointer' =>
        rw [hok] at hpointer
        exact congrArg _ (congrArg _ (congrArg _ (Except.ok.inj hpointer)))
    exact .bind (publishTarget_ensures hs hrole (hcollision _ hpayload) _ _)
      fun _ _ h => .pure h
  · exact .raise hs

end Steps

end DistPlatform.Core
