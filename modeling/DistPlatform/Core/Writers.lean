import DistPlatform.Core.PublicationRuns
import DistPlatform.Library.History
import DistPlatform.Library.Parties

/-!
# Several instances over one directory

The signing worker keeps one instance open for as long as it runs, and a ceremony opens
another. Each works from what it read when it was built; nothing tells it what the other has
written since.

## Main definitions

* `lastOf`, `delegated` — what the directory says: the last file of a role, the applications.
* `Published` — what the writes to the directory keep.
* `Current` — an instance whose memory agrees with the directory.
* `writers` — any number of instances, one operation at a time.
-/

namespace DistPlatform.Core

open DistPlatform
open Runs History

/-! ## What was written -/

abbrev Writes := List (String × Metadata)

/-- Every write to the metadata directory, newest first. -/
def Directory.log {β : Type} (dir : Directory β) : Writes := dir.history.reverse

/-- A file of the role, under the name of its version. -/
def fileOf (role : String) (file : String × Metadata) : Option Metadata :=
  if file.1 = filename role file.2.version then some file.2 else none

def lastOf (role : String) : Writes → Option Metadata := latest (fileOf role)

def lastVersion (role : String) (log : Writes) : Nat := ((lastOf role log).map (·.version)).getD 0

/-- The roles a file delegates to, the paths it lists, and the files it names. -/
def Signed.delegates : Signed → List String
  | .targets ⟨_, some ⟨_, roles⟩⟩ => roles.map (·.1)
  | _ => []

def Signed.lists : Signed → List String
  | .targets ⟨listed, _⟩ => listed.map (·.1)
  | _ => []

def Signed.metas : Signed → Table String Nat
  | .snapshot metas => metas
  | _ => []

/-- The roles of the applications that the last targets metadata delegates to. -/
def delegated (log : Writes) : List String :=
  match lastOf TARGETS log with
  | some md => md.signed.delegates
  | none => []

/-- A later file of a role keeps the delegations and the releases of an earlier one. -/
def Retains (earlier later : Signed) : Prop :=
  earlier.delegates ⊆ later.delegates ∧ earlier.lists ⊆ later.lists

/-- A snapshot names the top-level targets and every delegated role, at the last version. -/
def ListsAll (log : Writes) (snapshot : Signed) : Prop :=
  ∀ role, role = TARGETS ∨ role ∈ delegated log → ∀ md, lastOf role log = some md →
    snapshot.metas.get (role ++ ".json") = some md.version

/-- What the writes to a directory keep. -/
structure Published {β : Type} (dir : Directory β) : Prop where
  once : WrittenOnce dir
  increasing : ∀ role, (dir.log.filterMap (fileOf role)).Pairwise
    fun later earlier => earlier.version < later.version
  retained : ∀ role, (dir.log.filterMap (fileOf role)).Pairwise
    fun later earlier => Retains earlier.signed later.signed
  listed : ∀ newer older name md, dir.log = newer ++ (name, md) :: older →
    name = filename SNAPSHOT md.version → ListsAll older md.signed

/-! ## The invariant -/

/-- How a file follows the earlier ones. `root.json` is a copy of the root. -/
def Follows (file : String × Metadata) (older : Writes) : Prop :=
  file.1 = "root.json" ∨ ∃ role, file.1 = filename role file.2.version ∧
    file.2.version = lastVersion role older + 1 ∧
    (∀ md, lastOf role older = some md → Retains md.signed file.2.signed) ∧
    (role = SNAPSHOT → ListsAll older file.2.signed)

structure Kept {β : Type} (dir : Directory β) : Prop where
  stored : ∀ name, dir.metadata.get name = dir.log.lookup name
  follows : Justified Follows dir.log

/-- The instance remembers the last version of every role and the delegated applications. -/
structure Current {β : Type} (repo : Instance) (dir : Directory β) : Prop where
  versions : ∀ role, repo.version role = lastVersion role dir.log
  appRoles : ∀ role, role ∈ repo.appRoles ↔ role ∈ delegated dir.log

section Log

variable {role other : String} {log : Writes} {file : String × Metadata}

/-- A file name belongs to one role. -/
theorem role_of_filename {version version' : Nat}
    (h : filename role version = filename other version') : role = other := by
  by_cases hrole : role = TIMESTAMP <;> by_cases hother : other = TIMESTAMP
  · rw [hrole, hother]
  · subst hrole
    exact absurd h.symm (filename_ne_timestamp hother version')
  · subst hother
    exact absurd h (filename_ne_timestamp hrole version)
  · exact (filename_injective hrole hother h).1

theorem fileOf_eq_some {md : Metadata} :
    fileOf role file = some md ↔ file.1 = filename role md.version ∧ file.2 = md := by
  unfold fileOf
  constructor
  · intro h
    split at h
    next hname =>
      obtain rfl := Option.some.inj h
      exact ⟨hname, rfl⟩
    · cases h
  · rintro ⟨hname, rfl⟩
    rw [if_pos hname]

theorem lastVersion_of_lastOf {md : Metadata} (h : lastOf role log = some md) :
    lastVersion role log = md.version := by
  simp [lastVersion, h]

theorem lastOf_cons (h : file.1 = filename role file.2.version) (other : String) :
    lastOf other (file :: log) = if other = role then some file.2 else lastOf other log := by
  split
  next heq => exact latest_cons_of_some (by rw [heq, fileOf, if_pos h])
  next hne =>
    refine latest_cons_of_none ?_
    rw [fileOf, if_neg]
    intro hother
    exact hne (role_of_filename (hother.symm.trans h))

theorem lastOf_cons_root (md : Metadata) :
    lastOf other (("root.json", md) :: log) = lastOf other log :=
  latest_cons_of_none (if_neg fun h => filename_ne_root _ h.symm)

/-- A file is named after a role and its version, or is the copy of the root. -/
def Named (file : String × Metadata) (_ : Writes) : Prop :=
  file.1 = "root.json" ∨ ∃ role, file.1 = filename role file.2.version

theorem Follows.named {older : Writes} (h : Follows file older) : Named file older :=
  h.imp_right fun ⟨other, hname, _⟩ => ⟨other, hname⟩

/-- What is under the name of a role's last version is its last file. -/
theorem lookup_lastOf (h : Justified Named log) {md : Metadata}
    (hlast : lastOf role log = some md) : log.lookup (filename role md.version) = some md := by
  induction log with
  | nil => cases hlast
  | cons file log ih =>
    obtain ⟨hroot | ⟨other, hname⟩, hrest⟩ := h
    · obtain ⟨name, content⟩ := file
      obtain rfl : name = "root.json" := hroot
      rw [lastOf_cons_root] at hlast
      rw [List.lookup_cons, beq_eq_false_iff_ne.mpr (filename_ne_root _)]
      exact ih hrest hlast
    · rw [lastOf_cons hname] at hlast
      rw [List.lookup_cons]
      split at hlast
      next heq =>
        obtain rfl := Option.some.inj hlast
        rw [heq, ← hname, beq_self_eq_true]
      next hne =>
        have hother : (filename role md.version == file.1) = false := by
          rw [beq_eq_false_iff_ne, hname]
          exact fun heq => hne (role_of_filename heq)
        rw [hother]
        exact ih hrest hlast

theorem lastVersion_pos (h : Justified Follows log) {md : Metadata}
    (hlast : lastOf role log = some md) : 0 < md.version := by
  induction log with
  | nil => cases hlast
  | cons file log ih =>
    obtain ⟨hroot | ⟨other, hname, hversion, -⟩, hrest⟩ := h
    · obtain ⟨name, content⟩ := file
      obtain rfl : name = "root.json" := hroot
      exact ih hrest (lastOf_cons_root content ▸ hlast)
    · rw [lastOf_cons hname] at hlast
      split at hlast
      · obtain rfl := Option.some.inj hlast
        omega
      · exact ih hrest hlast

theorem Retains.refl (signed : Signed) : Retains signed signed :=
  ⟨List.Subset.refl _, List.Subset.refl _⟩

theorem Retains.trans {a b c : Signed} (h : Retains a b) (h' : Retains b c) : Retains a c :=
  ⟨List.Subset.trans h.1 h'.1, List.Subset.trans h.2 h'.2⟩

end Log

/-- The invariant says everything about the writes. -/
theorem Kept.published {β : Type} {dir : Directory β} (h : Kept dir) : Published dir := by
  have hpairs (role : String) : (dir.log.filterMap (fileOf role)).Pairwise fun later earlier =>
      earlier.version < later.version ∧ Retains earlier.signed later.signed := by
    refine h.follows.pairwise (R := fun earlier later : Metadata =>
      earlier.version < later.version ∧ Retains earlier.signed later.signed) ?_ ?_
    · exact fun a b c hab hbc => ⟨Nat.lt_trans hab.1 hbc.1, hab.2.trans hbc.2⟩
    · intro file older md last hfollows hfile hlast
      obtain ⟨hname, rfl⟩ := fileOf_eq_some.mp hfile
      obtain hroot | ⟨other, hother, hversion, hretains, -⟩ := hfollows
      · exact absurd (hname.symm.trans hroot) (filename_ne_root _)
      · obtain rfl := role_of_filename (hname.symm.trans hother)
        have hlast' := lastVersion_of_lastOf hlast
        exact ⟨by omega, hretains last hlast⟩
  refine ⟨?once, ?increasing, ?retained, ?listed⟩
  case once =>
    intro role version md md' hne hmd hmd'
    have hfile {content : Metadata} (hmem : (filename role version, content) ∈ dir.history) :
        content ∈ dir.log.filterMap (fileOf role) ∧ content.version = version := by
      have hmem : (filename role version, content) ∈ dir.log := List.mem_reverse.mpr hmem
      obtain ⟨newer, older, hsplit⟩ := List.append_of_mem hmem
      have hfollows := h.follows
      rw [hsplit] at hfollows
      obtain hroot | ⟨other, hother, -⟩ := hfollows.of_append
      · exact absurd hroot (filename_ne_root _)
      · obtain rfl := role_of_filename hother
        have hversion : version = content.version := (filename_injective hne hne hother).2
        exact ⟨List.mem_filterMap.mpr ⟨_, hmem, if_pos hother⟩, hversion.symm⟩
    obtain ⟨hin, hversion⟩ := hfile hmd
    obtain ⟨hin', hversion'⟩ := hfile hmd'
    have hdistinct : ((dir.log.filterMap (fileOf role)).map (·.version)).Nodup :=
      List.pairwise_map.mpr ((hpairs role).imp fun h => h.1.ne')
    exact List.inj_on_of_nodup_map hdistinct hin hin' (hversion.trans hversion'.symm)
  case increasing => exact fun role => (hpairs role).imp And.left
  case retained => exact fun role => (hpairs role).imp And.right
  case listed =>
    intro newer older name md hsplit hname
    have hfollows := h.follows
    rw [hsplit] at hfollows
    obtain hroot | ⟨other, hother, -, -, hlists⟩ := hfollows.of_append
    · exact absurd (hname.symm.trans hroot) (filename_ne_root _)
    · exact hlists (role_of_filename (hname.symm.trans hother)).symm

/-! ## The steps of an operation -/

section Steps

variable {β : Type} {out : Outside β} {s s' : Session β} {role : String}
  {R : Session β → Prop}

theorem log_put (dir : Directory β) (name : String) (md : Metadata) :
    (dir.put name md).log = (name, md) :: dir.log := by
  simp [Directory.log, Directory.put]

theorem Kept.put {dir : Directory β} (h : Kept dir) {name : String} {md : Metadata}
    (hfollows : Follows (name, md) dir.log) : Kept (dir.put name md) where
  stored other := by
    rw [get_put_metadata, log_put, List.lookup_cons]
    by_cases heq : other = name
    · rw [if_pos heq, beq_iff_eq.mpr heq]
    · rw [if_neg heq, beq_eq_false_iff_ne.mpr heq]
      exact h.stored other
  follows := log_put dir name md ▸ h.follows.cons hfollows

/-- The instance knows the last version of every role; the applications may still be behind. -/
structure Knowing (s : Session β) : Prop where
  kept : Kept s.dir
  versions : ∀ role, s.repo.version role = lastVersion role s.dir.log

/-- One more file of the role has been written. -/
structure Wrote (role : String) (signed : Signed) (s s' : Session β) : Prop where
  knowing : Knowing s'
  appRoles : s'.repo.appRoles = s.repo.appRoles
  last : ∃ md, md.signed = signed ∧ ∀ other, lastOf other s'.dir.log =
    if other = role then some md else lastOf other s.dir.log

/-- `open` gives the last file of the role. -/
theorem Knowing.openRole (hs : Knowing s) {md : Metadata}
    (h : s.repo.openRole s.dir role = .ok md) :
    lastOf role s.dir.log = none ∧ md = Metadata.initial role ∨
      lastOf role s.dir.log = some md := by
  cases hlast : lastOf role s.dir.log with
  | none =>
    have hversion : s.repo.version role = 0 := by simp [hs.versions, lastVersion, hlast]
    rw [Instance.openRole, if_pos hversion] at h
    exact .inl ⟨rfl, (Except.ok.inj h).symm⟩
  | some last =>
    have hpos := lastVersion_pos hs.kept.follows hlast
    have hversion : s.repo.version role = last.version := by
      rw [hs.versions, lastVersion_of_lastOf hlast]
    rw [Instance.openRole, if_neg (by omega), hversion, hs.kept.stored,
      lookup_lastOf (hs.kept.follows.mono fun _ _ => Follows.named) hlast] at h
    exact .inr (congrArg some (Except.ok.inj h))

/-- The next version is written, with the alias of the root, and then remembered. -/
theorem writeVersion_wrote (hs : Knowing s) {md : Metadata} {version : Nat}
    (hmd : md.version = version) (hversion : version = s.repo.version role + 1)
    (hretains : ∀ old, lastOf role s.dir.log = some old → Retains old.signed md.signed)
    (hlists : role = SNAPSHOT → ListsAll s.dir.log md.signed) :
    (do
      writeMetadata role version md
      Process.update (Session.setVersion role version) : Work β Unit).Ensures s
      (fun _ s' => Wrote role md.signed s s') R (fun _ => True) := by
  subst hmd
  have hkept : Kept (s.dir.put (filename role md.version) md) :=
    hs.kept.put (.inr ⟨role, rfl, by rw [hversion, hs.versions], hretains, hlists⟩)
  have hlast (other : String) : lastOf other (s.dir.put (filename role md.version) md).log =
      if other = role then some md else lastOf other s.dir.log := by
    rw [log_put]
    exact lastOf_cons rfl other
  refine .bind (Q := fun _ s' => s'.repo = s.repo ∧ Kept s'.dir ∧ ∀ other,
    lastOf other s'.dir.log = if other = role then some md else lastOf other s.dir.log) ?_ ?_
  · refine .bind (atomicWrite_ensures trivial (Q := fun _ s' =>
      s' = { s with dir := s.dir.put (filename role md.version) md }) rfl) ?_
    rintro - s' rfl
    split
    · refine atomicWrite_ensures trivial ⟨rfl, hkept.put (.inl rfl), fun other => ?_⟩
      rw [log_put, lastOf_cons_root]
      exact hlast other
    · exact .pure ⟨rfl, hkept, hlast⟩
  · rintro - s' ⟨hrepo, hkept', hlast'⟩
    refine .update ⟨⟨hkept', fun other => ?_⟩, ?_, ⟨md, rfl, hlast'⟩⟩
    · rw [version_setVersion, hrepo, lastVersion]
      change _ = ((lastOf other s'.dir.log).map (·.version)).getD 0
      rw [hlast']
      split
      · rfl
      · exact hs.versions other
    · simp only [Session.setVersion, hrepo]

/-- `close` writes the next version of the role, or raises before it writes. -/
theorem close_wrote (hs : Knowing s) (hR : R s) {md : Metadata}
    (hretains : ∀ old, lastOf role s.dir.log = some old → Retains old.signed md.signed)
    (hlists : role = SNAPSHOT → ListsAll s.dir.log md.signed) :
    (close out role md).Ensures s (fun _ s' => Wrote role md.signed s s') R
      (fun _ => True) := by
  refine .read_bind ?_
  split
  · exact .raise hR
  next policy hpolicy =>
    dsimp only
    split
    · exact .raise hR
    · refine writeVersion_wrote hs rfl rfl ?_ ?_
      · exact hretains
      · exact hlists

/-- An edit writes the changed content, or leaves everything as it is. -/
theorem edit_wrote (hs : Knowing s) (hR : R s)
    {change : Metadata → Except RepositoryError (Option Signed)}
    (hchange : ∀ md signed, s.repo.openRole s.dir role = .ok md → change md = .ok (some signed) →
      Retains md.signed signed ∧ (role = SNAPSHOT → ListsAll s.dir.log signed)) :
    (edit out role change).Ensures s
      (fun _ s' => ∃ md, s.repo.openRole s.dir role = .ok md ∧
        (change md = .ok none ∧ s' = s ∨
          ∃ signed, change md = .ok (some signed) ∧ Wrote role signed s s'))
      R (fun _ => True) := by
  refine .read_bind (.lift_bind hR fun md hmd => .lift_bind hR fun signed hsigned => ?_)
  cases signed with
  | none => exact .pure ⟨md, hmd, .inl ⟨hsigned, rfl⟩⟩
  | some signed =>
    obtain ⟨hretains, hlists⟩ := hchange md signed hmd hsigned
    refine (close_wrote hs hR (fun old hold => ?_) hlists).mono
      fun _ s' h => ⟨md, hmd, .inr ⟨signed, hsigned, h⟩⟩
    obtain ⟨hnone, -⟩ | hsome := hs.openRole hmd
    · cases hnone.symm.trans hold
    · exact Option.some.inj (hsome.symm.trans hold) ▸ hretains

end Steps

/-! ## The operations -/

/-- What an instance that knows the directory keeps, whatever it does. -/
structure Agrees {β : Type} (s : Session β) : Prop where
  knowing : Knowing s
  appRoles : ∀ role, role ∈ s.repo.appRoles ↔ role ∈ delegated s.dir.log

/-- `do_snapshot` takes over every version that is reported to it. -/
def ListsReported (tuf : TufRepository) : Prop :=
  ∀ signed recorded reported metas, tuf.snapshotMeta signed recorded reported = .ok (some metas) →
    ∀ file version, reported.get file = some version → metas.get file = some version

section Operations

variable {β : Type} {out : Outside β} {s s' : Session β} {role : String}

theorem Wrote.delegated {signed : Signed} (h : Wrote role signed s s') :
    delegated s'.dir.log = if role = TARGETS then signed.delegates else delegated s.dir.log := by
  obtain ⟨md, rfl, hlast⟩ := h.last
  unfold Core.delegated
  rw [hlast]
  by_cases heq : role = TARGETS
  · rw [if_pos heq, if_pos heq.symm]
  · rw [if_neg heq, if_neg (Ne.symm heq)]

theorem Wrote.agrees {signed : Signed} (h : Wrote role signed s s') (hs : Agrees s)
    (hsame : role = TARGETS → signed.delegates = Core.delegated s.dir.log) : Agrees s' := by
  refine ⟨h.knowing, fun other => ?_⟩
  rw [h.appRoles, hs.appRoles, h.delegated]
  split
  next heq => rw [hsame heq]
  · exact Iff.rfl

theorem Knowing.delegates_open (hs : Knowing s) {md : Metadata}
    (h : s.repo.openRole s.dir TARGETS = .ok md) : md.signed.delegates = delegated s.dir.log := by
  unfold delegated
  obtain ⟨hnone, rfl⟩ | hlast := hs.openRole h
  · rw [hnone]
    rfl
  · rw [hlast]

/-- An edit that does not touch the delegations. -/
theorem edit_agrees (hs : Agrees s)
    {change : Metadata → Except RepositoryError (Option Signed)}
    (hchange : ∀ md signed, change md = .ok (some signed) → Retains md.signed signed ∧
      (role = SNAPSHOT → ListsAll s.dir.log signed) ∧
        (role = TARGETS → signed.delegates = md.signed.delegates)) :
    (edit out role change).Ensures s (fun _ s' => Agrees s') Agrees (fun _ => True) := by
  refine (edit_wrote hs.knowing hs fun md signed _ hsigned => ?_).mono ?_
  · obtain ⟨hretains, hlists, -⟩ := hchange md signed hsigned
    exact ⟨hretains, hlists⟩
  · rintro - s' ⟨md, hmd, ⟨-, rfl⟩ | ⟨signed, hsigned, hwrote⟩⟩
    · exact hs
    · refine hwrote.agrees hs fun heq => ?_
      subst heq
      exact ((hchange md signed hsigned).2.2 rfl).trans (hs.knowing.delegates_open hmd)

/-- A list of file names with what is known of each. -/
theorem get_filterMap {names : List String} {f : String → Option (String × Nat)}
    (hkey : ∀ name row, f name = some row → row.1 = name ++ ".json") {version : Nat}
    (hmem : role ∈ names) (hrole : f role = some (role ++ ".json", version)) :
    Table.get (names.filterMap f) (role ++ ".json") = some version := by
  induction names with
  | nil => cases hmem
  | cons name names ih =>
    by_cases heq : role = name
    · subst heq
      rw [List.filterMap_cons_some hrole]
      simp [Table.get]
    · have hmem : role ∈ names := (List.mem_cons.mp hmem).resolve_left heq
      cases hname : f name with
      | none =>
        rw [List.filterMap_cons_none hname]
        exact ih hmem
      | some row =>
        have hne : (role ++ ".json" == row.1) = false := by
          rw [beq_eq_false_iff_ne, hkey name row hname]
          exact fun h => heq (snapshotFile_injective h)
        rw [List.filterMap_cons_some hname, Table.get, List.lookup_cons, hne]
        exact ih hmem

/-- `targets_infos` reports the roles the instance knows, at the versions it remembers. -/
theorem targetsInfos_known (hrole : role = TARGETS ∨ role ∈ s.repo.appRoles)
    (hpos : 0 < s.repo.version role) :
    s.targetsInfos.get (role ++ ".json") = some (s.repo.version role) := by
  have hmem : role ∈ TARGETS :: s.repo.appRoles.insertionSort (· ≤ ·) := by
    rw [List.mem_cons, List.mem_insertionSort]
    exact hrole
  refine get_filterMap ?_ hmem ?_
  · intro name row hrow
    split at hrow <;> cases hrow
    rfl
  · unfold Instance.version at hpos ⊢
    cases hget : s.repo.versions.get role with
    | none => simp [hget] at hpos
    | some version =>
      rw [hget, Option.getD_some] at hpos
      cases version with
      | zero => cases hpos
      | succ version => rfl

/-- `targets_infos` reports every delegated role at its last version. -/
theorem targetsInfos_last (hs : Agrees s) (hrole : role = TARGETS ∨ role ∈ delegated s.dir.log)
    {md : Metadata} (hlast : lastOf role s.dir.log = some md) :
    s.targetsInfos.get (role ++ ".json") = some md.version := by
  have hversion : s.repo.version role = md.version := by
    rw [hs.knowing.versions, lastVersion_of_lastOf hlast]
  rw [← hversion]
  refine targetsInfos_known (hrole.imp_right (hs.appRoles role).mpr) ?_
  rw [hversion]
  exact lastVersion_pos hs.knowing.kept.follows hlast

theorem retains_snapshot (metas : Table String Nat) (signed : Signed) :
    Retains (.snapshot metas) signed :=
  ⟨List.nil_subset _, List.nil_subset _⟩

theorem doSnapshot_agrees (hlists : ListsReported out.tuf) (hs : Agrees s) :
    (doSnapshot out).Ensures s (fun _ s' => Agrees s') Agrees (fun _ => True) := by
  refine .read_bind (edit_agrees hs fun md signed hchange => ?_)
  split at hchange
  next recorded hrecorded =>
    split at hchange
    next metas hmetas =>
      obtain ⟨metas, rfl, rfl⟩ := Option.map_eq_some_iff.mp (Except.ok.inj hchange)
      refine ⟨hrecorded ▸ retains_snapshot _ _, fun _ role hrole md hlast => ?_, fun h => ?_⟩
      · exact hlists _ _ _ _ hmetas _ _ (targetsInfos_last hs hrole hlast)
      · exact absurd h (by decide)
    · cases hchange
  · cases hchange

theorem doTimestamp_agrees (hs : Agrees s) :
    (doTimestamp out).Ensures s (fun _ s' => Agrees s') Agrees (fun _ => True) := by
  refine .read_bind (edit_agrees hs fun md signed hchange => ?_)
  refine ⟨?_, fun h => absurd h (by decide), fun h => absurd h (by decide)⟩
  split at hchange
  next recorded hrecorded =>
    rw [hrecorded]
    exact ⟨List.nil_subset _, List.nil_subset _⟩
  · cases hchange

theorem publish_agrees (hlists : ListsReported out.tuf) (hs : Agrees s) :
    (publish out).Ensures s (fun _ s' => Agrees s') Agrees (fun _ => True) :=
  .bind (doSnapshot_agrees hlists hs) fun _ _ => doTimestamp_agrees

theorem editUnchanged_agrees (hs : Agrees s) (hrole : role ≠ SNAPSHOT) :
    (edit out role unchanged).Ensures s (fun _ s' => Agrees s') Agrees (fun _ => True) := by
  refine edit_agrees hs fun md signed hchange => ?_
  obtain rfl := Option.some.inj (Except.ok.inj hchange)
  exact ⟨.refl _, fun h => absurd h hrole, fun _ => rfl⟩

theorem initialise_agrees (hlists : ListsReported out.tuf) (hs : Agrees s) :
    (initialise out).Ensures s (fun _ s' => Agrees s') Agrees (fun _ => True) := by
  refine .read_bind (.lift_bind hs fun _ _ => .bind (Q := fun _ s' => Agrees s') ?_ ?_)
  · refine edit_agrees hs fun md signed hchange => ?_
    refine ⟨?_, fun h => absurd h (by decide), fun h => absurd h (by decide)⟩
    split at hchange
    next root hroot =>
      rw [hroot]
      exact ⟨List.nil_subset _, List.nil_subset _⟩
    · cases hchange
  · intro _ s₁ hs₁
    refine .bind (editUnchanged_agrees hs₁ (by decide)) fun _ s₂ hs₂ => ?_
    exact publish_agrees hlists hs₂

/-- A new delegation is one more. -/
theorem mem_delegates {backend : SignerBackend} {policy : RolePolicy} {appId : String}
    {keyids : List String} {targets : Targets} :
    role ∈ (Signed.targets (delegate backend policy appId keyids targets)).delegates ↔
      role = policy.name ∨ role ∈ (Signed.targets targets).delegates := by
  obtain ⟨listed, _ | ⟨keys, roles⟩⟩ := targets
  · simp [delegate, Signed.delegates, Table.put, Table.erase]
  · simp only [delegate, Signed.delegates, Option.getD_some, Table.put, Table.erase,
      List.map_cons, List.mem_cons, List.mem_map, List.mem_filter, decide_eq_true_eq]
    grind

/-- The delegation is written, and the application becomes one the instance knows of. -/
theorem delegate_agrees (hs : Agrees s) {policy : RolePolicy} (appId : String)
    (keyids : List String) :
    (edit out TARGETS (onTargets (delegate s.repo.backend policy appId keyids))).Ensures s
      (fun _ s' => Agrees (s'.addAppRole policy.name)) Agrees (fun _ => True) := by
  refine (edit_wrote hs.knowing hs fun md signed _ hchange => ?_).mono ?_
  · obtain ⟨targets, htargets, rfl⟩ := onTargets_eq_ok hchange
    refine ⟨⟨fun other hother => ?_, ?_⟩, fun h => absurd h (by decide)⟩
    · exact mem_delegates.mpr (.inr (htargets ▸ hother))
    · rw [htargets]
      exact List.Subset.refl _
  · rintro - s₁ ⟨md, hmd, ⟨hskip, -⟩ | ⟨signed, hchange, hwrote⟩⟩
    · unfold onTargets at hskip
      split at hskip <;> cases hskip
    · obtain ⟨targets, htargets, rfl⟩ := onTargets_eq_ok hchange
      have hbefore := hs.knowing.delegates_open hmd
      refine ⟨⟨hwrote.knowing.kept, hwrote.knowing.versions⟩, fun other => ?_⟩
      change other ∈ List.insert policy.name s₁.repo.appRoles ↔ other ∈ delegated s₁.dir.log
      rw [List.mem_insert_iff, hwrote.appRoles, hs.appRoles, hwrote.delegated, if_pos rfl,
        mem_delegates, ← hbefore, htargets]

theorem appRole_of_policy {appId : String} {critical : Bool} {policy : RolePolicy}
    (h : (appRolePolicy appId critical).mapError RepositoryError.ValueError = .ok policy) :
    AppRole policy.name :=
  ⟨appId, (appRolePolicy_eq_ok (Fallible.mapError_eq_ok.mp h)).1⟩

theorem Agrees.setPolicy (hs : Agrees s) (policy : RolePolicy) : Agrees (s.setPolicy policy) :=
  ⟨⟨hs.knowing.kept, hs.knowing.versions⟩, hs.appRoles⟩

theorem addApp_agrees (hlists : ListsReported out.tuf) (hs : Agrees s) (appId : String)
    (critical : Bool) :
    (addApp out appId critical).Ensures s (fun _ s' => Agrees s') Agrees (fun _ => True) := by
  refine .lift_bind hs fun policy hpolicy => .update_bind (.read_bind ?_)
  have hs₀ := hs.setPolicy policy
  refine .lift_bind hs₀ fun _ _ => .bind (delegate_agrees hs₀ appId _) fun _ s₁ hs₁ => ?_
  have hrole : policy.name ≠ SNAPSHOT := (appRole_of_policy hpolicy).ne (by decide)
  exact .update_bind (.bind (editUnchanged_agrees hs₁ hrole) fun _ s₂ hs₂ =>
    .bind (publish_agrees hlists hs₂) fun _ s₃ hs₃ => .pure hs₃)

theorem Agrees.store (hs : Agrees s) (path : String) (payload : β) :
    Agrees { s with dir := s.dir.store path payload } :=
  ⟨⟨⟨hs.knowing.kept.stored, hs.knowing.kept.follows⟩, hs.knowing.versions⟩, hs.appRoles⟩

/-- One more release of an application is listed. -/
theorem list_agrees (hs : Agrees s) (hrole : AppRole role) (path : String) (file : TargetFile) :
    (edit out role (onTargets fun targets =>
      { targets with targets := targets.targets.put path file })).Ensures s
      (fun _ s' => Agrees s') Agrees (fun _ => True) := by
  refine edit_agrees hs fun md signed hchange => ?_
  obtain ⟨⟨listed, delegations⟩, htargets, rfl⟩ := onTargets_eq_ok hchange
  have hsame : ∀ files, (Signed.targets ⟨files, delegations⟩).delegates =
      (Signed.targets ⟨listed, delegations⟩).delegates := by
    cases delegations <;> exact fun _ => rfl
  rw [htargets]
  refine ⟨⟨fun other hother => hsame _ ▸ hother, fun other hother => ?_⟩,
    fun h => absurd h (hrole.ne (by decide)), fun _ => hsame _⟩
  simp only [Signed.lists, Table.put, Table.erase, List.map_cons, List.mem_cons, List.mem_map,
    List.mem_filter, decide_eq_true_eq] at hother ⊢
  grind

/-- Storing a payload writes no metadata; the release is one more path of the role. -/
theorem publishTarget_agrees (hlists : ListsReported out.tuf) (hs : Agrees s)
    (hrole : AppRole role) (path : String) (payload : β) (info : ReleaseInfo) :
    (publishTarget out role path payload info).Ensures s (fun _ s' => Agrees s') Agrees
      (fun _ => True) :=
  .bind (Q := fun _ s' => Agrees s') (.write trivial (hs.store _ payload)) fun _ _ hs₁ =>
    .bind (list_agrees hs₁ hrole path _) fun _ _ hs₂ => publish_agrees hlists hs₂

theorem delegatedRole_agrees (hs : Agrees s) (appId : String) :
    (delegatedRole appId : Work β String).Ensures s (fun role s' => s = s' ∧ AppRole role) Agrees
      (fun _ => True) := by
  refine .lift_bind hs fun role hrole => .read_bind (.lift_bind hs fun _ _ => .pure ⟨rfl, appId, ?_⟩)
  cases hok : appRoleName appId with
  | error e => simp [hok, Except.mapError] at hrole
  | ok name =>
    rw [hok] at hrole
    exact congrArg Except.ok (Except.ok.inj hrole)

/-- An operation of an instance that knows the directory leaves it knowing the directory. -/
theorem perform_agrees (hlists : ListsReported out.tuf) (hs : Agrees s) (call : Call β) :
    (call.perform out).Ensures s (fun _ s' => Agrees s') Agrees (fun _ => True) := by
  cases call with
  | initialise => exact initialise_agrees hlists hs
  | addApp appId critical =>
    exact .bind (addApp_agrees hlists hs appId critical) fun _ _ h => .pure h
  | addRelease key payload info =>
    refine .bind (Q := fun _ s' => Agrees s') ?_ fun _ _ h => .pure h
    refine .lift_bind hs fun _ _ => .bind (delegatedRole_agrees hs key.appId) ?_
    rintro role s' ⟨rfl, hrole⟩
    exact .bind (publishTarget_agrees hlists hs hrole _ _ _) fun _ _ h => .pure h
  | setCurrent key =>
    refine .bind (Q := fun _ s' => Agrees s') ?_ fun _ _ h => .pure h
    refine .bind (delegatedRole_agrees hs key.appId) ?_
    rintro role s' ⟨rfl, hrole⟩
    refine .read_bind (.lift_bind hs fun published _ => ?_)
    split
    · refine .lift_bind hs fun _ _ => .lift_bind hs fun pointer _ => ?_
      exact .bind (publishTarget_agrees hlists hs hrole _ _ _) fun _ _ h => .pure h
    · exact .raise hs

end Operations

/-! ## The writers -/

section Writers

variable {β : Type} (W : Type) (out : Outside β)

/-- An instance is built, or the writer's own one runs an operation to its end. -/
def writerTurn (dir : Directory β) : Action β → Option Instance →
    Option (Directory β × Option Instance)
  | .start backend, _ => some (dir, (Instance.new backend dir).toOption)
  | .call call budget, some repo => match call.perform out ⟨repo, dir⟩ budget with
    | .returned _ s _ | .raised _ s _ => some (s.dir, some s.repo)
    | .killed _ => none
  | .call _ _, none => none

/-- Any number of writers over one directory, empty at first. -/
def writers : Parties W (Directory β) (fun _ => Option Instance) (fun _ => Action β) where
  init := .empty
  idle _ := none
  turn _ act dir place := writerTurn out dir act place

abbrev Writing (W β : Type) := Config W (Directory β) fun _ => Option Instance

abbrev WritingMove (W β : Type) := Move W fun _ => Action β

/-- An operation is run by an instance that remembers what the directory says. -/
def UpToDate {W : Type} (c : Writing W β) : WritingMove W β → Prop
  | .turn p (.call _ _) => ∀ repo ∈ c.place p, Current repo c.shared
  | _ => True

variable {W out}

theorem Current.agrees {repo : Instance} {dir : Directory β} (h : Current repo dir)
    (hkept : Kept dir) : Agrees ⟨repo, dir⟩ :=
  ⟨⟨hkept, h.versions⟩, h.appRoles⟩

theorem kept_turn (hlists : ListsReported out.tuf) {dir dir' : Directory β} {act : Action β}
    {place place' : Option Instance} (hkept : Kept dir)
    (hcurrent : ∀ call budget, act = .call call budget → ∀ repo ∈ place, Current repo dir)
    (h : writerTurn out dir act place = some (dir', place')) : Kept dir' := by
  cases act with
  | start backend =>
    obtain ⟨rfl, -⟩ := Prod.mk.inj (Option.some.inj h)
    exact hkept
  | call call budget =>
    cases place with
    | none => cases h
    | some repo =>
      have hs := (hcurrent call budget rfl repo rfl).agrees hkept
      have hend := perform_agrees hlists hs call budget
      simp only [writerTurn] at h
      cases hresult : call.perform out ⟨repo, dir⟩ budget with
      | returned _ s _ | raised _ s _ =>
        rw [hresult] at h hend
        obtain ⟨rfl, -⟩ := Prod.mk.inj (Option.some.inj h)
        exact hend.knowing.kept
      | killed s =>
        rw [hresult] at h
        cases h

theorem kept_invariant [DecidableEq W] (hlists : ListsReported out.tuf) :
    (writers W out).Invariant UpToDate Kept (fun _ _ _ => True) where
  start := ⟨fun _ => rfl, trivial⟩
  idle _ _ := trivial
  own c p act dir' place' hok hI _ h := by
    refine ⟨kept_turn hlists hI ?_ h, trivial⟩
    rintro call budget rfl
    exact hok
  other _ _ _ _ _ _ _ _ _ _ _ := trivial

end Writers

/-! ## The signing worker and a ceremony -/

theorem listsReported_pythonTuf : ListsReported pythonTuf := by
  intro signed recorded reported metas h file version hget
  change pythonSnapshot signed recorded reported = _ at h
  unfold pythonSnapshot at h
  split at h
  · cases h
  · split at h
    · cases h
    · obtain rfl := Option.some.inj (Except.ok.inj h)
      rw [get_updatedMeta, hget]
      rfl

/-- The check of `Current` that looks only at the roles the instance knows. -/
def isCurrent {β : Type} (repo : Instance) (dir : Directory β) : Bool :=
  repo.versions.all (fun row => row.2 == lastVersion row.1 dir.log) &&
    dir.log.all (fun file => file.1 == "root.json" ||
      repo.versions.any fun row => file.1 == filename row.1 file.2.version) &&
    repo.appRoles.all (fun role => (delegated dir.log).contains role) &&
    (delegated dir.log).all fun role => repo.appRoles.contains role

theorem current_of_isCurrent {β : Type} {repo : Instance} {dir : Directory β}
    (h : isCurrent repo dir = true) : Current repo dir := by
  simp only [isCurrent, Bool.and_eq_true, List.all_eq_true, List.contains_eq_mem,
    decide_eq_true_eq] at h
  obtain ⟨⟨⟨hknown, hfiles⟩, hroles⟩, hroles'⟩ := h
  refine ⟨fun role => ?_, fun role => ⟨hroles role, hroles' role⟩⟩
  rw [Instance.version]
  cases hget : repo.versions.get role with
  | some version => exact beq_iff_eq.mp (hknown _ (Table.mem_of_get hget))
  | none =>
    cases hlast : lastOf role dir.log with
    | none => simp [lastVersion, hlast]
    | some md =>
      obtain ⟨file, hfile, hof⟩ := exists_of_latest hlast
      obtain ⟨hname, rfl⟩ := fileOf_eq_some.mp hof
      have hrow := hfiles file hfile
      rw [Bool.or_eq_true, beq_iff_eq, List.any_eq_true] at hrow
      obtain hroot | ⟨row, hmem, hrow⟩ := hrow
      · exact absurd (hname.symm.trans hroot) (filename_ne_root _)
      · obtain rfl := role_of_filename (hname.symm.trans (beq_iff_eq.mp hrow))
        have hsome := Table.get_isSome_of_mem hmem
        rw [hget] at hsome
        cases hsome

/-- `UpToDate`, by the check. -/
def upToDate {W β : Type} (c : Writing W β) : WritingMove W β → Bool
  | .turn p (.call _ _) => (c.place p).all (isCurrent · c.shared)
  | _ => true

theorem upToDate_of_check {W β : Type} {c : Writing W β} {move : WritingMove W β}
    (h : upToDate c move = true) : UpToDate c move := by
  cases move with
  | crash p => trivial
  | turn p act =>
    cases act with
    | start backend => trivial
    | call call budget =>
      intro repo hrepo
      rw [upToDate, Option.mem_def.mp hrepo] at h
      exact current_of_isCurrent h

inductive Writer
  | ceremony
  | signer
  deriving DecidableEq

/-- The signing worker's keystore holds no key of the root and of the top-level targets. -/
def onlineKeys : SignerBackend where
  keyids role := if role = ROOT ∨ role = TARGETS then [] else ["k1"]
  publicKey keyid := keyid

def ceremonyMove (call : Call String) : WritingMove Writer String := .turn .ceremony (.call call 9)

def signerMove (call : Call String) : WritingMove Writer String := .turn .signer (.call call 9)

/-- The first ceremony, and the signer started after it. -/
def firstCeremony : List (WritingMove Writer String) :=
  [.turn .ceremony (.start fiveKeys), ceremonyMove .initialise,
    ceremonyMove (.addApp "editor" false), .turn .signer (.start onlineKeys)]

def editorRelease : Call String :=
  .addRelease (editorKey "editor" editor_safe) "editor 1.0" editorInfo

/-- A release, a ceremony that moves the application's key offline and the channel's pointer,
each by an instance that has just been opened. -/
def reopened : List (WritingMove Writer String) :=
  firstCeremony ++ [signerMove editorRelease, .turn .ceremony (.start fiveKeys),
    ceremonyMove (.addApp "editor" true), .turn .signer (.start onlineKeys),
    signerMove (.setCurrent (editorKey "editor" editor_safe))]

/-- The second ceremony comes while the signer stays open. -/
def unnoticed : List (WritingMove Writer String) :=
  firstCeremony ++ [ceremonyMove (.addApp "editor" true), signerMove editorRelease]

def textWriters := writers Writer textPayloads

/-! ## The result -/

/-- In every run in which each operation is run by an instance that is up to date, the writes
keep what is published. -/
theorem published_of_upToDate {β W : Type} [DecidableEq W] {out : Outside β}
    (hlists : ListsReported out.tuf) {c : Writing W β}
    (hc : ((writers W out).system.when UpToDate).Reachable c) : Published c.shared :=
  ((kept_invariant hlists).holds hc).1.published

theorem published_of_upToDate_reopened :
    ∃ c, System.exec textWriters.next reopened textWriters.initial = some c ∧
      lastVersion SNAPSHOT c.shared.log = 5 ∧ lastVersion "app-editor" c.shared.log = 4 ∧
      Published c.shared := by
  have hrun : (System.exec (fun c move => if upToDate c move = true then
        textWriters.next c move else none) reopened textWriters.initial).map
        (fun c => (lastVersion SNAPSHOT c.shared.log, lastVersion "app-editor" c.shared.log)) =
      some (5, 4) := by
    decide +kernel
  obtain ⟨c, hc, hend⟩ := Option.map_eq_some_iff.mp hrun
  obtain ⟨hsnapshot, heditor⟩ := Prod.mk.inj hend
  have hreach := (System.reachable_exec_when (.start rfl) hc).mono
    fun _ _ h => upToDate_of_check h
  exact ⟨c, System.exec_of_when hc, hsnapshot, heditor,
    published_of_upToDate listsReported_pythonTuf hreach⟩

/-- The signer writes the snapshot of the second ceremony over, with the targets of the first. -/
theorem snapshot_rewritten :
    ¬ ∀ (out : Outside String), ListsReported out.tuf → ∀ c : Writing Writer String,
      (writers Writer out).system.Reachable c → Published c.shared := by
  intro hclaim
  have hrun : (System.exec textWriters.next unnoticed textWriters.initial).map (fun c =>
      ((c.shared.history.filter (·.1 = filename SNAPSHOT 3)).map (·.2.signed.metas))) = some
      [[("targets.json", 3), ("app-editor.json", 2)],
        [("targets.json", 2), ("app-editor.json", 2)]] := by
    decide +kernel
  obtain ⟨c, hc, hwritten⟩ := Option.map_eq_some_iff.mp hrun
  have honce := (hclaim textPayloads listsReported_pythonTuf c
    (System.reachable_exec (.start rfl) hc)).once
  have hmem (metas : Table String Nat) (h : metas ∈ (c.shared.history.filter
      (·.1 = filename SNAPSHOT 3)).map (·.2.signed.metas)) :
      ∃ md, (filename SNAPSHOT 3, md) ∈ c.shared.history ∧ md.signed.metas = metas := by
    obtain ⟨⟨name, md⟩, hfile, rfl⟩ := List.mem_map.mp h
    obtain ⟨hfile, hname⟩ := List.mem_filter.mp hfile
    exact ⟨md, of_decide_eq_true hname ▸ hfile, rfl⟩
  rw [hwritten] at hmem
  obtain ⟨md, hmd, hmetas⟩ := hmem _ (.head _)
  obtain ⟨md', hmd', hmetas'⟩ := hmem _ (.tail _ (.head _))
  have hsame := honce SNAPSHOT 3 md md' (by decide) hmd hmd'
  rw [hsame, hmetas'] at hmetas
  exact absurd hmetas (by decide)

end DistPlatform.Core
