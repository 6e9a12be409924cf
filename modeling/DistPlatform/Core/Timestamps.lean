import DistPlatform.Core.Writers

/-!
# What a timestamp and a snapshot name

A timestamp names the snapshot that is the last one when it is written, and a snapshot names
each role at its last version. So the versions that are named grow with the version of the
file that names them, which is what a client relies on that accepts a file by its version.

## Main definitions

* `NamesLast`, `Dated` — what a snapshot and any file names, when it is written.
* `Ordered` — what is named grows with the version.
-/

namespace DistPlatform.Core

open DistPlatform
open Runs History

/-- Whatever a snapshot names is the top-level targets or a delegated role, at its last version. -/
def NamesLast (log : Writes) (metas : Table String Nat) : Prop :=
  ∀ file version, metas.get file = some version →
    ∃ role, file = role ++ ".json" ∧ (role = TARGETS ∨ role ∈ delegated log) ∧
      ∃ md, lastOf role log = some md ∧ md.version = version

/-- Content that a file of the role may have after `log` was written. -/
structure DatedAs (role : String) (log : Writes) (signed : Signed) : Prop where
  timestamp : ∀ version, signed = .timestamp version →
    role = TIMESTAMP ∧ lastVersion SNAPSHOT log = version
  snapshot : ∀ metas, signed = .snapshot metas → role = SNAPSHOT ∧ NamesLast log metas

/-- A file of a role, or the copy of the root. -/
def Dated (file : String × Metadata) (older : Writes) : Prop :=
  ∃ role, (file.1 = filename role file.2.version ∨ role = ROOT ∧ file.1 = "root.json") ∧
    DatedAs role older file.2.signed

/-- What is named grows with the version of the file that names it. -/
structure Ordered (log : Writes) : Prop where
  timestamps : ∀ file ∈ log, ∀ file' ∈ log, ∀ version version',
    file.2.signed = .timestamp version → file'.2.signed = .timestamp version' →
      file.2.version ≤ file'.2.version → version ≤ version'
  snapshots : ∀ file ∈ log, ∀ file' ∈ log, ∀ metas metas',
    file.2.signed = .snapshot metas → file'.2.signed = .snapshot metas' →
      file.2.version ≤ file'.2.version →
        ∀ name version version', metas.get name = some version → metas'.get name = some version' →
          version ≤ version'

/-! ## The last version only grows -/

section Log

variable {role : String} {older newer : Writes} {file : String × Metadata}

theorem version_le_last (h : Justified Follows older) (hfile : file ∈ older)
    (hname : file.1 = filename role file.2.version) : file.2.version ≤ lastVersion role older := by
  induction older with
  | nil => cases hfile
  | cons first older ih =>
    obtain ⟨hroot | ⟨other, hother, hversion, -⟩, hrest⟩ := h
    · obtain ⟨name, md⟩ := first
      obtain rfl : name = "root.json" := hroot
      rw [lastVersion, lastOf_cons_root]
      obtain rfl | hfile := List.mem_cons.mp hfile
      · exact absurd hname.symm (filename_ne_root _)
      · exact ih hrest hfile
    · rw [lastVersion, lastOf_cons hother]
      obtain rfl | hfile := List.mem_cons.mp hfile
      · rw [if_pos (role_of_filename (hname.symm.trans hother))]
        exact Nat.le_refl _
      · have hle := ih hrest hfile
        split
        next heq =>
          subst heq
          exact Nat.le_of_lt (Nat.lt_of_le_of_lt hle (by simp [hversion]))
        · exact hle

theorem lastVersion_mono (h : Justified Follows (newer ++ older)) :
    lastVersion role older ≤ lastVersion role (newer ++ older) := by
  cases hlast : lastOf role older with
  | none => simp [lastVersion, hlast]
  | some md =>
    obtain ⟨file, hfile, hof⟩ := exists_of_latest hlast
    obtain ⟨hname, rfl⟩ := fileOf_eq_some.mp hof
    rw [lastVersion_of_lastOf hlast]
    exact version_le_last h (List.mem_append_right _ hfile) hname

theorem delegated_mono (h : Justified Follows (newer ++ older)) :
    delegated older ⊆ delegated (newer ++ older) := by
  induction newer with
  | nil => exact List.Subset.refl _
  | cons first newer ih =>
    refine List.Subset.trans (ih h.2) ?_
    obtain hroot | ⟨other, hother, -, hretains, -⟩ := h.1
    · obtain ⟨name, md⟩ := first
      obtain rfl : name = "root.json" := hroot
      unfold delegated
      rw [List.cons_append, lastOf_cons_root]
      exact List.Subset.refl _
    · unfold delegated
      rw [List.cons_append, lastOf_cons hother]
      by_cases heq : TARGETS = other
      · subst heq
        rw [if_pos rfl]
        cases hlast : lastOf TARGETS (newer ++ older) with
        | none => exact List.nil_subset _
        | some md => exact (hretains md hlast).1
      · rw [if_neg heq]
        exact List.Subset.refl _

end Log

/-! ## The order -/

section Order

variable {log : Writes} {file file' : String × Metadata}

/-- A file's name fixes the role it is dated as. -/
theorem Dated.of_timestamp {older : Writes} (h : Dated file older) {version : Nat}
    (hsigned : file.2.signed = .timestamp version) :
    file.1 = filename TIMESTAMP file.2.version ∧ lastVersion SNAPSHOT older = version := by
  obtain ⟨role, hname, hdated⟩ := h
  obtain ⟨rfl, hlast⟩ := hdated.timestamp version hsigned
  obtain hname | ⟨hrole, -⟩ := hname
  · exact ⟨hname, hlast⟩
  · exact absurd hrole (by decide)

theorem Dated.of_snapshot {older : Writes} (h : Dated file older) {metas : Table String Nat}
    (hsigned : file.2.signed = .snapshot metas) :
    file.1 = filename SNAPSHOT file.2.version ∧ NamesLast older metas := by
  obtain ⟨role, hname, hdated⟩ := h
  obtain ⟨rfl, hlast⟩ := hdated.snapshot metas hsigned
  obtain hname | ⟨hrole, -⟩ := hname
  · exact ⟨hname, hlast⟩
  · exact absurd hrole (by decide)

/-- Two files of one role: the older one has the lower version. -/
theorem version_lt_of_older {newer older : Writes} {role : String}
    (h : Justified Follows (newer ++ file' :: older)) (hfile : file ∈ older)
    (hname : file.1 = filename role file.2.version)
    (hname' : file'.1 = filename role file'.2.version) : file.2.version < file'.2.version := by
  obtain hroot | ⟨other, hother, hversion, -⟩ := h.of_append
  · exact absurd (hname'.symm.trans hroot) (filename_ne_root _)
  · obtain rfl := role_of_filename (hname'.symm.trans hother)
    have hle := version_le_last h.older.2 hfile hname
    omega

/-- Two files of one role, in the order of their versions. -/
theorem dated_pair {role : String} (h : Justified Follows log) (hdated : Justified Dated log)
    (hfile : file ∈ log) (hfile' : file' ∈ log) (hname : file.1 = filename role file.2.version)
    (hname' : file'.1 = filename role file'.2.version) (hle : file.2.version ≤ file'.2.version) :
    file = file' ∨ ∃ newer older, Dated file older ∧ Dated file' (newer ++ file :: older) ∧
      Justified Follows (newer ++ file :: older) := by
  obtain heq | ⟨newest, older', rfl, hmem⟩ | ⟨newest, older', rfl, hmem⟩ :=
    older_or_older hfile hfile'
  · exact .inl heq
  · obtain ⟨newer, older, rfl⟩ := List.append_of_mem hmem
    exact .inr ⟨newer, older, hdated.older.2.of_append, hdated.of_append, h.older.2⟩
  · have hlt := version_lt_of_older h hmem hname' hname
    omega

theorem dated_of_mem (hdated : Justified Dated log) (hfile : file ∈ log) :
    ∃ older, Dated file older := by
  obtain ⟨newer, older, rfl⟩ := List.append_of_mem hfile
  exact ⟨older, hdated.of_append⟩

theorem ordered_of_dated (h : Justified Follows log) (hdated : Justified Dated log) :
    Ordered log where
  timestamps file hfile file' hfile' version version' hsigned hsigned' hle := by
    obtain ⟨_, hd⟩ := dated_of_mem hdated hfile
    obtain ⟨_, hd'⟩ := dated_of_mem hdated hfile'
    obtain rfl | ⟨newer, older, hd, hd', hfollows⟩ := dated_pair h hdated hfile hfile'
      (hd.of_timestamp hsigned).1 (hd'.of_timestamp hsigned').1 hle
    · cases hsigned.symm.trans hsigned'
      exact Nat.le_refl _
    · rw [← (hd.of_timestamp hsigned).2, ← (hd'.of_timestamp hsigned').2]
      rw [List.append_cons] at hfollows ⊢
      exact lastVersion_mono hfollows
  snapshots file hfile file' hfile' metas metas' hsigned hsigned' hle name v v' hv hv' := by
    obtain ⟨_, hd⟩ := dated_of_mem hdated hfile
    obtain ⟨_, hd'⟩ := dated_of_mem hdated hfile'
    obtain rfl | ⟨newer, older, hd, hd', hfollows⟩ := dated_pair h hdated hfile hfile'
      (hd.of_snapshot hsigned).1 (hd'.of_snapshot hsigned').1 hle
    · cases hsigned.symm.trans hsigned'
      cases hv.symm.trans hv'
      exact Nat.le_refl _
    · obtain ⟨role, rfl, -, md, hlast, rfl⟩ := (hd.of_snapshot hsigned).2 _ _ hv
      obtain ⟨role', hrole, -, md', hlast', rfl⟩ := (hd'.of_snapshot hsigned').2 _ _ hv'
      obtain rfl := snapshotFile_injective hrole
      rw [← lastVersion_of_lastOf hlast, ← lastVersion_of_lastOf hlast']
      rw [List.append_cons] at hfollows ⊢
      exact lastVersion_mono hfollows

end Order

/-! ## The operations -/

section Operations

variable {β : Type} {out : Outside β} {s : Session β} {role : String} {first : Writes}

/-- The writes of `s'` are dated, and begin with those of `s`. -/
structure Dates (s s' : Session β) : Prop where
  dated : Justified Dated s'.dir.log
  since : s.dir.log <:+ s'.dir.log

/-- No role loses its last file. -/
theorem Dates.kept {s' : Session β} (h : Dates s s') (hlast : (lastOf role s.dir.log).isSome) :
    (lastOf role s'.dir.log).isSome := by
  obtain ⟨newer, hnewer⟩ := h.since
  rw [← hnewer]
  exact latest_isSome_append hlast

theorem DatedAs.of_targets (role : String) (log : Writes) (targets : Targets) :
    DatedAs role log (.targets targets) :=
  ⟨nofun, nofun⟩

/-- What is known of a file of another role says that it names nothing. -/
theorem DatedAs.of_ne {log log' : Writes} {signed : Signed} (h : DatedAs role log signed)
    (hsnapshot : role ≠ SNAPSHOT) (htimestamp : role ≠ TIMESTAMP) (other : String) :
    DatedAs other log' signed :=
  ⟨fun version hsigned => absurd (h.timestamp version hsigned).1 htimestamp,
    fun metas hsigned => absurd (h.snapshot metas hsigned).1 hsnapshot⟩

theorem dated_put (hd : Justified Dated s.dir.log) {name : String} {md : Metadata}
    (hdated : Dated (name, md) s.dir.log) : Dates s { s with dir := s.dir.put name md } where
  dated := by
    rw [log_put]
    exact hd.cons hdated
  since := by
    rw [log_put]
    exact List.suffix_cons _ _

theorem writeMetadata_dated (hd : Justified Dated s.dir.log) (md : Metadata)
    (hdated : DatedAs role s.dir.log md.signed) {R : Session β → Prop} :
    (writeMetadata role md.version md : Work β Unit).Ensures s
      (fun _ s' => Dates s s' ∧ (lastOf role s'.dir.log).isSome) R (fun _ => True) := by
  have hfirst : Dates s { s with dir := s.dir.put (filename role md.version) md } :=
    dated_put hd ⟨role, .inl rfl, hdated⟩
  have hlast : (lastOf role (s.dir.put (filename role md.version) md).log).isSome := by
    rw [log_put, lastOf_cons rfl, if_pos rfl]
    rfl
  refine .bind (atomicWrite_ensures trivial (Q := fun _ s' =>
    s' = { s with dir := s.dir.put (filename role md.version) md }) rfl) ?_
  rintro - s' rfl
  split
  next hroot =>
    subst hroot
    have hroot : Dated ("root.json", md) (s.dir.put (filename ROOT md.version) md).log :=
      ⟨ROOT, .inr ⟨rfl, rfl⟩, hdated.of_ne (by decide) (by decide) ROOT⟩
    have hcopy := dated_put hfirst.dated hroot
    exact atomicWrite_ensures trivial
      ⟨⟨hcopy.dated, hfirst.since.trans hcopy.since⟩, hcopy.kept hlast⟩
  · exact .pure ⟨hfirst, hlast⟩

theorem close_dated (hd : Justified Dated s.dir.log) (md : Metadata)
    (hdated : DatedAs role s.dir.log md.signed) :
    (close out role md).Ensures s
      (fun _ s' => Dates s s' ∧ (lastOf role s'.dir.log).isSome) (· = s) (fun _ => True) := by
  refine .read_bind ?_
  split
  · exact .raise rfl
  · dsimp only
    split
    · exact .raise rfl
    · refine .bind (writeMetadata_dated hd { md with
        version := s.repo.version role + 1, expires := _, signatures := _ } hdated) ?_
      exact fun _ s' h => .update ⟨⟨h.1.dated, h.1.since⟩, h.2⟩

/-- An edit that writes what may be written; it raises before it writes. -/
theorem edit_dated (hd : Justified Dated s.dir.log)
    {change : Metadata → Except RepositoryError (Option Signed)}
    (hchange : ∀ md signed, s.repo.openRole s.dir role = .ok md →
      change md = .ok (some signed) → DatedAs role s.dir.log signed) :
    (edit out role change).Ensures s
      (fun _ s' => Dates s s' ∧ ∃ md, s.repo.openRole s.dir role = .ok md ∧
        (change md = .ok none ∧ s' = s ∨ (lastOf role s'.dir.log).isSome))
      (· = s) (fun _ => True) := by
  refine .read_bind (.lift_bind rfl fun md hmd => .lift_bind rfl fun signed hsigned => ?_)
  cases signed with
  | none => exact .pure ⟨⟨hd, List.suffix_refl _⟩, md, hmd, .inl ⟨hsigned, rfl⟩⟩
  | some signed =>
    refine (close_dated hd { md with signed } (hchange md signed hmd hsigned)).mono ?_
    exact fun _ s' h => ⟨h.1, md, hmd, .inr h.2⟩

/-- What a role's last file holds was dated when it was written. -/
theorem dated_of_last {log : Writes} (hd : Justified Dated log) {md : Metadata}
    (hlast : lastOf role log = some md) :
    ∃ newer older, log = newer ++ older ∧ DatedAs role older md.signed := by
  obtain ⟨file, hfile, hof⟩ := exists_of_latest hlast
  obtain ⟨hname, rfl⟩ := fileOf_eq_some.mp hof
  obtain ⟨newer, older, rfl⟩ := List.append_of_mem hfile
  obtain ⟨other, hother | ⟨-, hroot⟩, hdated⟩ := hd.of_append
  · obtain rfl := role_of_filename (hname.symm.trans hother)
    exact ⟨newer ++ [file], older, by simp, hdated⟩
  · exact absurd (hname.symm.trans hroot) (filename_ne_root _)

theorem Knowing.openRole_targets (hs : Knowing s) (hd : Justified Dated s.dir.log)
    (hsnapshot : role ≠ SNAPSHOT) (htimestamp : role ≠ TIMESTAMP) {md : Metadata}
    (h : s.repo.openRole s.dir role = .ok md) : DatedAs role s.dir.log md.signed := by
  obtain ⟨-, rfl⟩ | hlast := hs.openRole h
  · unfold Metadata.initial Signed.initial
    split
    · exact ⟨nofun, nofun⟩
    · exact .of_targets _ _ _
  · obtain ⟨_, _, -, hdated⟩ := dated_of_last hd hlast
    exact hdated.of_ne hsnapshot htimestamp role

/-- An instance that knows the directory, over writes that are dated and begin with `first`. -/
structure Timely (first : Writes) (s : Session β) : Prop where
  agrees : Agrees s
  dated : Justified Dated s.dir.log
  since : first <:+ s.dir.log

/-- There is a file of the top-level targets as well, so that a snapshot may be taken. -/
structure Ready (first : Writes) (s : Session β) : Prop extends Timely first s where
  targets : (lastOf TARGETS s.dir.log).isSome

theorem exists_last_of_version (hs : Knowing s) {version : Nat} (h : s.repo.version role = version)
    (hpos : 0 < version) : ∃ md, lastOf role s.dir.log = some md ∧ md.version = version := by
  rw [hs.versions, lastVersion] at h
  cases hlast : lastOf role s.dir.log with
  | none =>
    rw [hlast] at h
    simp only [Option.map_none, Option.getD_none] at h
    omega
  | some md =>
    rw [hlast] at h
    exact ⟨md, rfl, h⟩

/-- `do_snapshot` names every role at its last version: what it takes over from the snapshot
before is reported as well. -/
theorem namesLast_of_update (hs : Ready first s) {md : Metadata}
    (hmd : s.repo.openRole s.dir SNAPSHOT = .ok md) {signed : Bool}
    {recorded metas : Table String Nat} (hrecorded : md.signed = .snapshot recorded)
    (hmetas : out.tuf.snapshotMeta signed recorded s.targetsInfos = .ok (some metas)) :
    NamesLast s.dir.log metas := by
  intro file version hget
  have hknowing := hs.agrees.knowing
  obtain hreported | ⟨hnone, hget⟩ := out.tuf.snapshot_updates _ _ _ _ hmetas _ _ hget
  · obtain ⟨role, hrole, rfl, hversion, hpos⟩ := targetsInfos_sound hreported
    exact ⟨role, rfl, hrole.imp id (hs.agrees.appRoles role).mp,
      exists_last_of_version hknowing hversion hpos⟩
  · have hnamed : ∃ role, file = role ++ ".json" ∧
        (role = TARGETS ∨ role ∈ delegated s.dir.log) ∧ (lastOf role s.dir.log).isSome := by
      obtain ⟨-, rfl⟩ | hlast := hknowing.openRole hmd
      · cases hrecorded
        have hmem := Table.mem_of_get hget
        obtain ⟨rfl, -⟩ := Prod.mk.inj (List.mem_singleton.mp hmem)
        exact ⟨TARGETS, rfl, .inl rfl, hs.targets⟩
      · obtain ⟨newer, older, hsplit, hdated⟩ := dated_of_last hs.dated hlast
        obtain ⟨role, rfl, hrole, last, hrolelast, -⟩ :=
          (hdated.snapshot recorded hrecorded).2 _ _ hget
        have hfollows := hknowing.kept.follows
        rw [hsplit] at hfollows ⊢
        refine ⟨role, rfl, hrole.imp id fun h => delegated_mono hfollows h, ?_⟩
        exact latest_isSome_append (by rw [← lastOf, hrolelast]; rfl)
    obtain ⟨role, rfl, hrole, hsome⟩ := hnamed
    obtain ⟨last, hlast⟩ := Option.isSome_iff_exists.mp hsome
    rw [targetsInfos_last hs.agrees hrole hlast] at hnone
    cases hnone

theorem doSnapshot_dated (hs : Ready first s) :
    (doSnapshot out).Ensures s
      (fun _ s' => Dates s s' ∧ (lastOf SNAPSHOT s'.dir.log).isSome) (· = s) (fun _ => True) := by
  refine .read_bind ((edit_dated hs.dated fun md signed hmd hchange => ?_).mono ?_)
  · split at hchange
    next recorded hrecorded =>
      split at hchange
      next metas hmetas =>
        obtain ⟨metas, rfl, rfl⟩ := Option.map_eq_some_iff.mp (Except.ok.inj hchange)
        refine ⟨nofun, fun metas' h => ⟨rfl, ?_⟩⟩
        obtain rfl := Signed.snapshot.inj h
        exact namesLast_of_update hs hmd hrecorded hmetas
      · cases hchange
    · cases hchange
  · rintro - s' ⟨hdates, md, hmd, ⟨hskip, rfl⟩ | hsome⟩
    · refine ⟨hdates, ?_⟩
      split at hskip
      next recorded hrecorded =>
        split at hskip
        next metas hmetas =>
          obtain rfl := Option.map_eq_none_iff.mp (Except.ok.inj hskip)
          have hsigned := ((out.tuf.snapshot_skips _ _ _).mp hmetas).1
          obtain ⟨-, rfl⟩ | hlast := hs.agrees.knowing.openRole hmd
          · simp [Metadata.initial] at hsigned
          · rw [hlast]
            rfl
        · cases hskip
      · cases hskip
    · exact ⟨hdates, hsome⟩

theorem doTimestamp_dated (hs : Ready first s) (hsnapshot : (lastOf SNAPSHOT s.dir.log).isSome) :
    (doTimestamp out).Ensures s (fun _ s' => Dates s s') (· = s) (fun _ => True) := by
  refine .read_bind ((edit_dated hs.dated fun md signed _ hchange => ?_).mono fun _ _ h => h.1)
  split at hchange
  next recorded hrecorded =>
    split at hchange
    next version hversion =>
      obtain ⟨version, rfl, rfl⟩ := Option.map_eq_some_iff.mp (Except.ok.inj hchange)
      refine ⟨fun version' h => ⟨rfl, ?_⟩, nofun⟩
      obtain rfl := Signed.timestamp.inj h
      obtain rfl := out.tuf.timestamp_updates _ _ _ _ hversion
      obtain ⟨last, hlast⟩ := Option.isSome_iff_exists.mp hsnapshot
      have hpos := lastVersion_pos hs.agrees.knowing.kept.follows hlast
      have hknown := hs.agrees.knowing.versions SNAPSHOT
      rw [Instance.version, lastVersion_of_lastOf hlast] at hknown
      rw [lastVersion_of_lastOf hlast, Session.snapshotInfo]
      cases hget : s.repo.versions.get SNAPSHOT with
      | none =>
        rw [hget, Option.getD_none] at hknown
        omega
      | some version =>
        rw [hget] at hknown
        exact hknown.symm
    · cases hchange
  · cases hchange

theorem Timely.after (hs : Timely first s) {s' : Session β} (ha : Agrees s') (hd : Dates s s') :
    Timely first s' :=
  ⟨ha, hd.dated, hs.since.trans hd.since⟩

theorem Ready.after (hs : Ready first s) {s' : Session β} (ha : Agrees s') (hd : Dates s s') :
    Ready first s' :=
  ⟨hs.toTimely.after ha hd, hd.kept hs.targets⟩

/-- An edit that has raised has written nothing. -/
theorem Timely.raised (hs : Timely first s) {s' : Session β} (h : Agrees s' ∧ s' = s) :
    Timely first s' :=
  h.2 ▸ hs

theorem publish_timely (hlists : ListsReported out.tuf) (hs : Ready first s) :
    (publish out).Ensures s (fun _ s' => Timely first s') (Timely first) (fun _ => True) := by
  refine .bind (((doSnapshot_agrees hlists hs.agrees).and (doSnapshot_dated hs)).mono_raised
    fun _ => hs.raised) ?_
  rintro - s₁ ⟨ha₁, hd₁, hsnapshot⟩
  have hs₁ := hs.after ha₁ hd₁
  refine (((doTimestamp_agrees ha₁).and (doTimestamp_dated hs₁ hsnapshot)).mono ?_).mono_raised
    fun _ => hs₁.raised
  rintro - s₂ ⟨ha₂, hd₂⟩
  exact hs₁.toTimely.after ha₂ hd₂

/-- An edit of a role that names no file; it is never skipped. -/
theorem editUnchanged_timely (hs : Timely first s) (hsnapshot : role ≠ SNAPSHOT)
    (htimestamp : role ≠ TIMESTAMP) :
    (edit out role unchanged).Ensures s
      (fun _ s' => Agrees s' ∧ Dates s s' ∧ (lastOf role s'.dir.log).isSome) (Timely first)
      (fun _ => True) := by
  refine (((editUnchanged_agrees hs.agrees hsnapshot).and
    (edit_dated hs.dated fun md signed hmd hchange => ?_)).mono ?_).mono_raised
    fun _ => hs.raised
  · obtain rfl := Option.some.inj (Except.ok.inj hchange)
    exact hs.agrees.knowing.openRole_targets hs.dated hsnapshot htimestamp hmd
  · rintro - s' ⟨ha, hd, md, -, ⟨hskip, -⟩ | hsome⟩
    · cases hskip
    · exact ⟨ha, hd, hsome⟩

/-- An edit that leaves a root a root. -/
theorem editRoot_timely (hs : Timely first s)
    {change : Metadata → Except RepositoryError (Option Signed)}
    (hchange : ∀ md signed, change md = .ok (some signed) →
      (∃ root, md.signed = .root root) ∧ ∃ root, signed = .root root) :
    (edit out ROOT change).Ensures s (fun _ s' => Timely first s') (Timely first) (fun _ => True) := by
  refine (((edit_agrees hs.agrees fun md signed h => ?_).and
    (edit_dated hs.dated fun md signed _ h => ?_)).mono ?_).mono_raised fun _ => hs.raised
  · obtain ⟨⟨root, hroot⟩, -⟩ := hchange md signed h
    rw [hroot]
    exact ⟨⟨List.nil_subset _, List.nil_subset _⟩, fun h => absurd h (by decide),
      fun h => absurd h (by decide)⟩
  · obtain ⟨-, root, rfl⟩ := hchange md signed h
    exact ⟨nofun, nofun⟩
  · rintro - s' ⟨ha, hd, -⟩
    exact hs.after ha hd

theorem initialise_timely (hlists : ListsReported out.tuf) (hs : Timely first s) :
    (initialise out).Ensures s (fun _ s' => Timely first s') (Timely first) (fun _ => True) := by
  refine .read_bind (.lift_bind hs fun _ _ => .bind (editRoot_timely hs fun md signed h => ?_) ?_)
  · split at h
    next root hsigned =>
      obtain ⟨root', -, h⟩ := Fallible.bind_eq_ok.mp h
      exact ⟨⟨root, hsigned⟩, root', (Option.some.inj (Except.ok.inj h)).symm⟩
    · cases h
  · intro _ s₁ hs₁
    refine .bind (editUnchanged_timely hs₁ (by decide) (by decide)) ?_
    rintro - s₂ ⟨ha₂, hd₂, htargets⟩
    exact publish_timely hlists ⟨hs₁.after ha₂ hd₂, htargets⟩

theorem addApp_timely (hlists : ListsReported out.tuf) (hs : Timely first s) (appId : String)
    (critical : Bool) :
    (addApp out appId critical).Ensures s (fun _ s' => Timely first s') (Timely first) (fun _ => True) := by
  refine .lift_bind hs fun policy hpolicy => .update_bind (.read_bind ?_)
  have hs₀ : Timely first (s.setPolicy policy) := ⟨hs.agrees.setPolicy policy, hs.dated, hs.since⟩
  have hrole := appRole_of_policy hpolicy
  refine .lift_bind hs₀ fun _ _ => .bind (((delegate_agrees hs₀.agrees appId _).and
    (edit_dated hs₀.dated fun md signed _ hchange => ?_)).mono_raised fun _ => hs₀.raised) ?_
  · obtain ⟨targets, -, rfl⟩ := onTargets_eq_ok hchange
    exact .of_targets _ _ _
  · rintro - s₁ ⟨ha₁, hd₁, md, -, ⟨hskip, -⟩ | htargets⟩
    · unfold onTargets at hskip
      split at hskip <;> cases hskip
    · have hs₁ : Timely first (s₁.addAppRole policy.name) := ⟨ha₁, hd₁.dated, hs.since.trans hd₁.since⟩
      refine .update_bind (.bind (editUnchanged_timely hs₁ (hrole.ne (by decide))
        (hrole.ne (by decide))) ?_)
      rintro - s₂ ⟨ha₂, hd₂, -⟩
      exact .bind (publish_timely hlists ⟨hs₁.after ha₂ hd₂, hd₂.kept htargets⟩)
        fun _ _ hs₃ => .pure hs₃

theorem publishTarget_timely (hlists : ListsReported out.tuf) (hs : Timely first s)
    (hrole : AppRole role) (hknown : role ∈ s.repo.appRoles) (path : String) (payload : β)
    (info : ReleaseInfo) :
    (publishTarget out role path payload info).Ensures s (fun _ s' => Timely first s') (Timely first)
      (fun _ => True) := by
  have htargets : (lastOf TARGETS s.dir.log).isSome := by
    have hdelegated := (hs.agrees.appRoles role).mp hknown
    unfold delegated at hdelegated
    split at hdelegated
    next md hlast => rw [hlast]; rfl
    · cases hdelegated
  refine .bind (Q := fun _ s' => Timely first s' ∧ (lastOf TARGETS s'.dir.log).isSome)
    (.write trivial ⟨⟨hs.agrees.store _ payload, hs.dated, hs.since⟩, htargets⟩) ?_
  rintro - s₁ ⟨hs₁, htargets₁⟩
  refine .bind (((list_agrees hs₁.agrees hrole path _).and
    (edit_dated hs₁.dated fun md signed _ hchange => ?_)).mono_raised fun _ => hs₁.raised) ?_
  · obtain ⟨targets, -, rfl⟩ := onTargets_eq_ok hchange
    exact .of_targets _ _ _
  · rintro - s₂ ⟨ha₂, hd₂, -⟩
    exact publish_timely hlists ⟨hs₁.after ha₂ hd₂, hd₂.kept htargets₁⟩

theorem delegatedRole_timely (hs : Timely first s) (appId : String) :
    (delegatedRole appId : Work β String).Ensures s
      (fun role s' => s = s' ∧ AppRole role ∧ role ∈ s.repo.appRoles) (Timely first) (fun _ => True) := by
  refine .lift_bind hs fun role hrole => .read_bind (.lift_bind hs fun _ hknown => .pure ?_)
  exact ⟨rfl, ⟨appId, Fallible.mapError_eq_ok.mp hrole⟩, Fallible.ensure_eq_ok.mp hknown⟩

/-- An operation of an instance that knows the directory dates its files. -/
theorem perform_timely (hlists : ListsReported out.tuf) (hs : Timely first s) (call : Call β) :
    (call.perform out).Ensures s (fun _ s' => Timely first s') (Timely first) (fun _ => True) := by
  cases call with
  | initialise => exact initialise_timely hlists hs
  | addApp appId critical =>
    exact .bind (addApp_timely hlists hs appId critical) fun _ _ h => .pure h
  | addRelease key payload info =>
    refine .bind (Q := fun _ s' => Timely first s') ?_ fun _ _ h => .pure h
    refine .lift_bind hs fun _ _ => .bind (delegatedRole_timely hs key.appId) ?_
    rintro role s' ⟨rfl, hrole, hknown⟩
    exact .bind (publishTarget_timely hlists hs hrole hknown _ _ _) fun _ _ h => .pure h
  | setCurrent key =>
    refine .bind (Q := fun _ s' => Timely first s') ?_ fun _ _ h => .pure h
    refine .bind (delegatedRole_timely hs key.appId) ?_
    rintro role s' ⟨rfl, hrole, hknown⟩
    refine .read_bind (.lift_bind hs fun published _ => ?_)
    split
    · refine .lift_bind hs fun _ _ => .lift_bind hs fun pointer _ => ?_
      exact .bind (publishTarget_timely hlists hs hrole hknown _ _ _) fun _ _ h => .pure h
    · exact .raise hs

end Operations

/-! ## The writers -/

section Writers

variable {β W : Type} {out : Outside β}

theorem timely_turn (hlists : ListsReported out.tuf) {dir dir' : Directory β} {act : Action β}
    {place place' : Option Instance} (hkept : Kept dir) (hdated : Justified Dated dir.log)
    (hcurrent : ∀ call budget, act = .call call budget → ∀ repo ∈ place, Current repo dir)
    (h : writerTurn out dir act place = some (dir', place')) :
    Justified Dated dir'.log ∧ dir.log <:+ dir'.log := by
  cases act with
  | start backend =>
    obtain ⟨rfl, -⟩ := Prod.mk.inj (Option.some.inj h)
    exact ⟨hdated, List.suffix_refl _⟩
  | call call budget =>
    cases place with
    | none => cases h
    | some repo =>
      have hs := (hcurrent call budget rfl repo rfl).agrees hkept
      have hend := perform_timely hlists ⟨hs, hdated, List.suffix_refl _⟩ call budget
      simp only [writerTurn] at h
      cases hresult : call.perform out ⟨repo, dir⟩ budget with
      | returned _ s _ | raised _ s _ =>
        rw [hresult] at h hend
        obtain ⟨rfl, -⟩ := Prod.mk.inj (Option.some.inj h)
        exact ⟨hend.dated, hend.since⟩
      | killed s =>
        rw [hresult] at h
        cases h

theorem UpToDate.current [DecidableEq W] {c : Writing W β} {p : W} {act : Action β}
    (hok : UpToDate c (.turn p act)) : ∀ call budget, act = .call call budget →
      ∀ repo ∈ c.place p, Current repo c.shared := by
  rintro call budget rfl
  exact hok

theorem dated_invariant [DecidableEq W] (hlists : ListsReported out.tuf) :
    (writers W out).Invariant UpToDate (fun dir => Kept dir ∧ Justified Dated dir.log)
      (fun _ _ _ => True) where
  start := ⟨⟨fun _ => rfl, trivial⟩, trivial⟩
  idle _ _ := trivial
  own _ _ _ _ _ hok hI _ h :=
    ⟨⟨kept_turn hlists hI.1 hok.current h, (timely_turn hlists hI.1 hI.2 hok.current h).1⟩,
      trivial⟩
  other _ _ _ _ _ _ _ _ _ _ _ := trivial

/-- Where each operation is run by an instance that is up to date, what is named grows with the
version. -/
theorem ordered_of_upToDate [DecidableEq W] (hlists : ListsReported out.tuf) {c : Writing W β}
    (hc : ((writers W out).system.when UpToDate).Reachable c) : Ordered c.shared.log := by
  obtain ⟨hkept, hdated⟩ := ((dated_invariant hlists).holds hc).1
  exact ordered_of_dated hkept.follows hdated

/-- Nothing that was written is taken back. -/
theorem log_suffix [DecidableEq W] (hlists : ListsReported out.tuf) {c c' : Writing W β}
    (hc : ((writers W out).system.when UpToDate).Reachable c) {move : WritingMove W β}
    (hok : UpToDate c move) (hstep : (writers W out).next c move = some c') :
    c.shared.log <:+ c'.shared.log := by
  obtain ⟨hkept, hdated⟩ := ((dated_invariant hlists).holds hc).1
  cases move with
  | turn p act =>
    obtain ⟨dir, place, hturn, rfl⟩ := Parties.next_turn hstep
    exact (timely_turn hlists hkept hdated hok.current hturn).2
  | crash p =>
    obtain rfl := Parties.next_crash hstep
    exact List.suffix_refl _

end Writers

end DistPlatform.Core
