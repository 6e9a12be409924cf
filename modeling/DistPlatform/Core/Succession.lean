import DistPlatform.Core.Writers

/-!
# Instances one after the other

An instance may be killed at any of its writes, and a fresh one goes on from what it finds. It
finds every file of a role whose name has no line feed; so what is said here of these roles
holds at every instant, whatever became of the others.

## Main definitions

* `Seen` — a role whose files a fresh instance finds.
* `Entered`, `Recorded` — how a file follows the earlier ones; the directory at any instant.
* `Reads`, `Informed` — what an instance knows of the directory.
* `Added` — what one more file of a role changes.
-/

namespace DistPlatform.Core

open DistPlatform
open Runs History

/-- The dot of the pattern that reads file names stops at a line feed. -/
def Seen (role : String) : Prop := '\n' ∉ role.toList

instance (role : String) : Decidable (Seen role) := inferInstanceAs (Decidable (¬ _))

/-- A snapshot names the top-level targets and the delegated roles, at their last versions. -/
structure Names (log : Writes) (metas : Table String Nat) : Prop where
  all : ∀ role, Seen role → role = TARGETS ∨ role ∈ delegated log → ∀ md,
    lastOf role log = some md → metas.get (role ++ ".json") = some md.version
  only : ∀ file version, metas.get file = some version → ∃ role, file = role ++ ".json" ∧
    (role = TARGETS ∨ role ∈ delegated log) ∧
      (Seen role → ∃ md, lastOf role log = some md ∧ md.version = version)

/-- The last snapshot of a directory that has one names what there is. -/
def Snapshotted (log : Writes) : Prop :=
  ∃ snapshot, lastOf SNAPSHOT log = some snapshot ∧ Names log snapshot.signed.metas

def Signed.delegatedRoles : Signed → Table String DelegatedRole
  | .targets ⟨_, some ⟨_, roles⟩⟩ => roles
  | _ => []

/-- A delegated role is kept under its own name. -/
def Signed.Titled (signed : Signed) : Prop := ∀ row ∈ signed.delegatedRoles, row.2.name = row.1

/-- Content that a file of the role may have after `older` was written. -/
structure Admissible (role : String) (older : Writes) (signed : Signed) : Prop where
  fits : signed.Fits role
  delegates : role = TARGETS → delegated older ⊆ signed.delegates
  appRoles : ∀ name ∈ signed.delegates, AppRole name
  titled : signed.Titled
  snapshot : ∀ metas, signed = .snapshot metas → (lastOf TARGETS older).isSome ∧ Names older metas
  timestamp : ∀ version, signed = .timestamp version →
    ∃ snapshot, lastOf SNAPSHOT older = some snapshot ∧ snapshot.version = version ∧
      (lastOf TARGETS older).isSome ∧ Names older snapshot.signed.metas

/-- How a file follows the earlier ones. `root.json` is a copy of the root. -/
def Entered (file : String × Metadata) (older : Writes) : Prop :=
  file.1 = "root.json" ∨ ∃ role, file.1 = filename role file.2.version ∧
    (Seen role → file.2.version = lastVersion role older + 1) ∧
    Admissible role older file.2.signed

/-- The directory at any instant. -/
structure Recorded {β : Type} (dir : Directory β) : Prop where
  distinct : (dir.metadata.map (·.1)).Nodup
  stored : ∀ name, dir.metadata.get name = dir.log.lookup name
  entered : Justified Entered dir.log

/-- The instance knows the last version of every role it can see. -/
structure Reads {β : Type} (s : Session β) : Prop where
  recorded : Recorded s.dir
  versions : ∀ role, Seen role → s.repo.version role = lastVersion role s.dir.log

/-- It knows the applications as well, and has a policy for every role. -/
structure Informed {β : Type} (s : Session β) : Prop extends Reads s where
  appRoles : ∀ role, role ∈ s.repo.appRoles ↔ role ∈ delegated s.dir.log
  topPolicies : ∀ row ∈ TOP_LEVEL_POLICIES, s.repo.policies.get row.1 = some row.2
  appPolicies : ∀ role ∈ s.repo.appRoles, ∃ policy, s.repo.policies.get role = some policy ∧
    policy.threshold = 1

/-! ## What is in the directory -/

section Log

variable {role other : String} {log older newer : Writes} {file : String × Metadata} {md : Metadata}

theorem Entered.named (h : Entered file older) : Named file older :=
  h.imp_right fun ⟨role, hname, _⟩ => ⟨role, hname⟩

theorem entered_of_name (h : Entered file older) (hname : file.1 = filename role file.2.version) :
    (Seen role → file.2.version = lastVersion role older + 1) ∧
      Admissible role older file.2.signed := by
  obtain hroot | ⟨other, hother, hentered⟩ := h
  · exact absurd (hname.symm.trans hroot) (filename_ne_root _)
  · exact role_of_filename (hname.symm.trans hother) ▸ hentered

/-- A file of the log followed what is older in it. -/
theorem exists_of_lastOf (h : Justified Entered log) (hlast : lastOf role log = some md) :
    ∃ newer older, log = newer ++ (filename role md.version, md) :: older ∧
      (Seen role → md.version = lastVersion role older + 1) ∧ Admissible role older md.signed := by
  obtain ⟨⟨name, content⟩, hfile, hof⟩ := exists_of_latest hlast
  obtain ⟨hname, rfl⟩ := fileOf_eq_some.mp hof
  change name = filename role content.version at hname
  subst hname
  obtain ⟨newer, older, rfl⟩ := List.append_of_mem hfile
  exact ⟨newer, older, rfl, entered_of_name h.of_append rfl⟩

theorem Admissible.of_lastOf (h : Justified Entered log) (hlast : lastOf role log = some md) :
    ∃ older, Admissible role older md.signed := by
  obtain ⟨_, older, -, -, hadmissible⟩ := exists_of_lastOf h hlast
  exact ⟨older, hadmissible⟩

theorem fits_of_lookup (h : Justified Entered log) {version : Nat}
    (hlookup : log.lookup (filename role version) = some md) :
    ∃ older, Admissible role older md.signed := by
  induction log with
  | nil => cases hlookup
  | cons file log ih =>
    rw [List.lookup_cons] at hlookup
    split at hlookup
    next hname =>
      have hname := beq_iff_eq.mp hname
      obtain rfl := Option.some.inj hlookup
      obtain hroot | ⟨other, hother, -, hadmissible⟩ := h.1
      · exact absurd (hname.trans hroot) (filename_ne_root _)
      · exact ⟨log, role_of_filename (hname.trans hother) ▸ hadmissible⟩
    · exact ih h.2 hlookup

theorem lastVersion_pos_of_seen (h : Justified Entered log) (hseen : Seen role)
    (hlast : lastOf role log = some md) : 0 < md.version := by
  obtain ⟨_, _, -, hversion, -⟩ := exists_of_lastOf h hlast
  rw [hversion hseen]
  exact Nat.succ_pos _

/-- A file of a role that is seen is no newer than the last one. -/
theorem version_le_of_seen (h : Justified Entered log) (hseen : Seen role) (hfile : file ∈ log)
    (hname : file.1 = filename role file.2.version) : file.2.version ≤ lastVersion role log := by
  induction log with
  | nil => cases hfile
  | cons first log ih =>
    obtain ⟨hroot | ⟨other, hother, hversion, -⟩, hrest⟩ := h
    · obtain ⟨name, md⟩ := first
      obtain rfl : name = "root.json" := hroot
      rw [lastVersion, lastOf_cons_root]
      obtain rfl | hfile := List.mem_cons.mp hfile
      · exact absurd hname.symm (filename_ne_root _)
      · exact ih hrest hfile
    · rw [lastVersion, lastOf_cons hother]
      obtain rfl | hfile := List.mem_cons.mp hfile
      · rw [if_pos (role_of_filename (hname.symm.trans hother))]
        exact Nat.le_refl _
      · have hle := ih hrest hfile
        split
        next heq =>
          subst heq
          exact Nat.le_of_lt (Nat.lt_of_le_of_lt hle (by simp [hversion hseen]))
        · exact hle

theorem lastVersion_mono_of_seen (h : Justified Entered (newer ++ older)) (hseen : Seen role) :
    lastVersion role older ≤ lastVersion role (newer ++ older) := by
  cases hlast : lastOf role older with
  | none => simp [lastVersion, hlast]
  | some md =>
    obtain ⟨file, hfile, hof⟩ := exists_of_latest hlast
    obtain ⟨hname, rfl⟩ := fileOf_eq_some.mp hof
    rw [lastVersion_of_lastOf hlast]
    exact version_le_of_seen h hseen (List.mem_append_right _ hfile) hname

/-- What was written under the name of a role that is seen is still there. -/
theorem lookup_of_seen (h : Justified Entered (newer ++ (filename role md.version, md) :: older))
    (hseen : Seen role) (hrole : role ≠ TIMESTAMP) :
    (newer ++ (filename role md.version, md) :: older).lookup (filename role md.version) =
      some md := by
  induction newer with
  | nil => simp
  | cons first newer ih =>
    rw [List.cons_append, List.lookup_cons]
    have hne : (filename role md.version == first.1) = false := by
      rw [beq_eq_false_iff_ne]
      intro heq
      obtain hroot | ⟨other, hother, hversion, -⟩ := h.1
      · exact filename_ne_root _ (heq.trans hroot)
      · obtain rfl := role_of_filename (heq.trans hother)
        have hle := version_le_of_seen h.2 hseen
          (List.mem_append_right newer List.mem_cons_self) rfl
        have hsame := (filename_injective hrole hrole (heq.trans hother)).2
        have := hversion hseen
        dsimp only at hle
        omega
    rw [hne]
    exact ih h.2

/-- Delegations are only added. -/
theorem delegated_mono_of_entered (h : Justified Entered (newer ++ older)) :
    delegated older ⊆ delegated (newer ++ older) := by
  induction newer with
  | nil => exact List.Subset.refl _
  | cons first newer ih =>
    refine List.Subset.trans (ih h.2) ?_
    obtain hroot | ⟨other, hother, -, hadmissible⟩ := h.1
    · obtain ⟨name, md⟩ := first
      obtain rfl : name = "root.json" := hroot
      unfold delegated
      rw [List.cons_append, lastOf_cons_root]
      exact List.Subset.refl _
    · conv => rhs; unfold delegated
      rw [List.cons_append, lastOf_cons hother]
      by_cases heq : TARGETS = other
      · subst heq
        rw [if_pos rfl]
        exact hadmissible.delegates rfl
      · rw [if_neg heq]
        exact List.Subset.refl _

theorem delegated_of_none (h : lastOf TARGETS log = none) : delegated log = [] := by
  unfold delegated
  rw [h]

theorem delegated_of_lastOf (h : lastOf TARGETS log = some md) :
    delegated log = md.signed.delegates := by
  unfold delegated
  rw [h]

theorem appRole_of_delegated (h : Justified Entered log) (hrole : role ∈ delegated log) :
    AppRole role := by
  cases hlast : lastOf TARGETS log with
  | none =>
    rw [delegated_of_none hlast] at hrole
    cases hrole
  | some md =>
    rw [delegated_of_lastOf hlast] at hrole
    obtain ⟨_, hadmissible⟩ := Admissible.of_lastOf h hlast
    exact hadmissible.appRoles role hrole

theorem isSome_append (h : (lastOf role older).isSome) : (lastOf role (newer ++ older)).isSome :=
  latest_isSome_append h

end Log

/-! ## One more file -/

/-- What one more file of a role, with this content, changes in a directory. -/
structure Extended {β : Type} (role : String) (signed : Signed) (dir dir' : Directory β) :
    Prop where
  recorded : Recorded dir'
  payloads : dir'.payloads = dir.payloads
  since : dir.log <:+ dir'.log
  last : ∃ md, md.signed = signed ∧
    (Seen role → md.version = lastVersion role dir.log + 1) ∧
    ∀ other, lastOf other dir'.log = if other = role then some md else lastOf other dir.log

/-- The same, by an instance that remembers the file. -/
structure Added {β : Type} (role : String) (signed : Signed) (s s' : Session β) : Prop extends
    Extended role signed s.dir s'.dir where
  reads : Reads s'
  version : s'.repo.version role = s.repo.version role + 1
  versions : ∀ other ≠ role, s'.repo.version other = s.repo.version other
  backend : s'.repo.backend = s.repo.backend
  policies : s'.repo.policies = s.repo.policies
  appRoles : s'.repo.appRoles = s.repo.appRoles

/-- The keystore holds the keys that the role's policy asks for. -/
def Keyed {β : Type} (role : String) (s : Session β) : Prop :=
  ∃ policy, s.repo.policies.get role = some policy ∧
    policy.threshold ≤ (s.repo.backend.keyids role).length

section Steps

variable {β : Type} {out : Outside β} {s s' : Session β} {dir dir' : Directory β} {role : String}
  {signed : Signed} {md : Metadata}

theorem Extended.lastOf_of_ne (h : Extended role signed dir dir') {other : String}
    (hne : other ≠ role) : lastOf other dir'.log = lastOf other dir.log := by
  obtain ⟨md, -, -, hlast⟩ := h.last
  rw [hlast, if_neg hne]

theorem Extended.lastOf_self (h : Extended role signed dir dir') :
    ∃ md, lastOf role dir'.log = some md ∧ md.signed = signed ∧
      (Seen role → md.version = lastVersion role dir.log + 1) := by
  obtain ⟨md, hsigned, hversion, hlast⟩ := h.last
  exact ⟨md, by rw [hlast, if_pos rfl], hsigned, hversion⟩

theorem Extended.delegated (h : Extended role signed dir dir') :
    delegated dir'.log = if role = TARGETS then signed.delegates else delegated dir.log := by
  split
  next heq =>
    subst heq
    obtain ⟨md, hlast, rfl, -⟩ := h.lastOf_self
    exact delegated_of_lastOf hlast
  next hne =>
    unfold Core.delegated
    rw [h.lastOf_of_ne (Ne.symm hne)]

theorem Recorded.put (h : Recorded dir) {name : String} (hentered : Entered (name, md) dir.log) :
    Recorded (dir.put name md) where
  distinct := Table.nodup_put h.distinct _ _
  stored other := by
    rw [get_put_metadata, log_put, List.lookup_cons]
    by_cases heq : other = name
    · rw [if_pos heq, beq_iff_eq.mpr heq]
    · rw [if_neg heq, beq_eq_false_iff_ne.mpr heq]
      exact h.stored other
  entered := log_put dir name md ▸ h.entered.cons hentered

theorem Recorded.extended (h : Recorded dir)
    (hversion : Seen role → md.version = lastVersion role dir.log + 1)
    (hadmissible : Admissible role dir.log md.signed) :
    Extended role md.signed dir (dir.put (filename role md.version) md) where
  recorded := h.put (.inr ⟨role, rfl, hversion, hadmissible⟩)
  payloads := rfl
  since := log_put dir _ md ▸ List.suffix_cons _ _
  last := ⟨md, rfl, hversion, fun other => by rw [log_put]; exact lastOf_cons rfl other⟩

/-- The alias of the root says nothing new. -/
theorem Extended.alias (h : Extended role signed dir dir') (md : Metadata) :
    Extended role signed dir (dir'.put "root.json" md) where
  recorded := h.recorded.put (.inl rfl)
  payloads := h.payloads
  since := h.since.trans (log_put dir' _ md ▸ List.suffix_cons _ _)
  last := by
    obtain ⟨content, hsigned, hversion, hlast⟩ := h.last
    exact ⟨content, hsigned, hversion, fun other => by rw [log_put, lastOf_cons_root, hlast]⟩

/-- The instance that wrote a version remembers it. -/
theorem Extended.added (h : Extended role signed s.dir s'.dir) (hs : Reads s)
    (hrepo : s'.repo = s.repo) :
    Added role signed s (s'.setVersion role (s.repo.version role + 1)) := by
  have hreads : Reads (s'.setVersion role (s.repo.version role + 1)) := by
    refine ⟨h.recorded, fun other hseen => ?_⟩
    rw [version_setVersion, hrepo]
    change _ = lastVersion other s'.dir.log
    split
    next heq =>
      subst heq
      obtain ⟨md, hlast, -, hversion⟩ := h.lastOf_self
      rw [lastVersion_of_lastOf hlast, hversion hseen, hs.versions other hseen]
    next hne => rw [lastVersion, h.lastOf_of_ne hne, hs.versions other hseen, lastVersion]
  refine ⟨h, hreads, by rw [version_setVersion, if_pos rfl], fun other hne => ?_,
    by rw [Session.setVersion, hrepo], by rw [Session.setVersion, hrepo],
    by rw [Session.setVersion, hrepo]⟩
  rw [version_setVersion, if_neg hne, hrepo]

/-- The directories that a killed edit of the role may leave. -/
structure Survives (K : Directory β → Prop) (role : String) (signed : Signed)
    (dir : Directory β) : Prop where
  before : K dir
  between : role = ROOT → ∀ dir', Extended role signed dir dir' → K dir'

variable {R : Session β → Prop} {K : Directory β → Prop}

theorem writeVersion_added (hs : Reads s) (md : Metadata) (hK : Survives K role md.signed s.dir)
    {version : Nat} (hmd : md.version = version) (hversion : version = s.repo.version role + 1)
    (hadmissible : Admissible role s.dir.log md.signed) :
    (do
      writeMetadata role version md
      Process.update (Session.setVersion role version) : Work β Unit).Ensures s
      (fun _ s' => Added role md.signed s s') R (fun s' => K s'.dir) := by
  subst hmd
  have hextended := hs.recorded.extended
    (fun hseen => by rw [hversion, hs.versions role hseen]) hadmissible
  refine .bind (Q := fun _ s' => s'.repo = s.repo ∧ Extended role md.signed s.dir s'.dir) ?_ ?_
  · refine .bind (atomicWrite_ensures hK.before (Q := fun _ s' =>
      s' = { s with dir := s.dir.put (filename role md.version) md }) rfl) ?_
    rintro - s' rfl
    split
    next hroot =>
      exact atomicWrite_ensures (hK.between hroot _ hextended) ⟨rfl, hextended.alias md⟩
    · exact .pure ⟨rfl, hextended⟩
  · rintro - s' ⟨hrepo, hextended'⟩
    rw [hversion]
    exact .update (hextended'.added hs hrepo)

/-- `close` writes the next version of the role; where the keys are not there it raises before
it writes. -/
theorem close_added (hs : Reads s) (md : Metadata)
    (hadmissible : Admissible role s.dir.log md.signed)
    (hR : R s ∨ Keyed role s) (hK : Survives K role md.signed s.dir) :
    (close out role md).Ensures s
      (fun _ s' => Keyed role s ∧ Added role md.signed s s') R (fun s' => K s'.dir) := by
  refine .read_bind ?_
  split
  next hnone =>
    refine .raise (hR.resolve_right ?_)
    rintro ⟨policy, hsome, -⟩
    cases hnone.symm.trans hsome
  next policy hpolicy =>
    dsimp only
    split
    next hfew =>
      refine .raise (hR.resolve_right ?_)
      rintro ⟨other, hsome, henough⟩
      obtain rfl := Option.some.inj (hpolicy.symm.trans hsome)
      omega
    next hfew =>
      refine (writeVersion_added hs { md with
        version := s.repo.version role + 1, expires := _, signatures := _ } hK rfl rfl
        hadmissible).mono fun _ s' h => ⟨⟨policy, hpolicy, Nat.le_of_not_lt hfew⟩, h⟩

/-- An edit that cannot fail. -/
def Goes (s : Session β) (role : String)
    (change : Metadata → Except RepositoryError (Option Signed)) : Prop :=
  ∃ md signed, s.repo.openRole s.dir role = .ok md ∧ change md = .ok signed ∧
    (signed.isSome → Keyed role s)

/-- An edit writes the changed content, or leaves everything as it is. -/
theorem edit_added (hs : Reads s)
    {change : Metadata → Except RepositoryError (Option Signed)}
    (hchange : ∀ md signed, s.repo.openRole s.dir role = .ok md → change md = .ok (some signed) →
      Admissible role s.dir.log signed ∧ Survives K role signed s.dir)
    (hR : R s ∨ Goes s role change) :
    (edit out role change).Ensures s
      (fun _ s' => ∃ md, s.repo.openRole s.dir role = .ok md ∧
        (change md = .ok none ∧ s' = s ∨ ∃ signed, change md = .ok (some signed) ∧
          Keyed role s ∧ Added role signed s s'))
      R (fun s' => K s'.dir) := by
  refine .read_bind (.lift_cases (fun e hopen => hR.resolve_right ?_) fun md hmd =>
    .lift_cases (fun e hsigned => hR.resolve_right ?_) fun result hsigned => ?_)
  · rintro ⟨md, _, hok, -⟩
    cases hopen.symm.trans hok
  · rintro ⟨md', _, hok, hchanged, -⟩
    obtain rfl := Except.ok.inj (hmd.symm.trans hok)
    cases hsigned.symm.trans hchanged
  · cases result with
    | none => exact .pure ⟨md, hmd, .inl ⟨hsigned, rfl⟩⟩
    | some signed =>
      obtain ⟨hadmissible, hK⟩ := hchange md signed hmd hsigned
      refine (close_added hs { md with signed } hadmissible (hR.imp_right ?_) hK).mono
        fun _ s' h => ⟨md, hmd, .inr ⟨signed, hsigned, h⟩⟩
      rintro ⟨md', signed', hok, hchanged, hkeyed⟩
      obtain rfl := Except.ok.inj (hmd.symm.trans hok)
      obtain rfl := Except.ok.inj (hsigned.symm.trans hchanged)
      exact hkeyed rfl

/-! ## Opening -/

theorem seen_targets : Seen TARGETS := by decide

theorem seen_snapshot : Seen SNAPSHOT := by decide

theorem seen_timestamp : Seen TIMESTAMP := by decide

/-- `open` gives the last file of a role that is seen. -/
theorem Reads.openRole (hs : Reads s) (hseen : Seen role) :
    ∃ md, s.repo.openRole s.dir role = .ok md ∧
      (lastOf role s.dir.log = none ∧ md = Metadata.initial role ∨
        lastOf role s.dir.log = some md) := by
  unfold Instance.openRole
  cases hlast : lastOf role s.dir.log with
  | none =>
    have hversion : s.repo.version role = 0 := by simp [hs.versions role hseen, lastVersion, hlast]
    exact ⟨_, if_pos hversion, .inl ⟨rfl, rfl⟩⟩
  | some last =>
    have hpos := lastVersion_pos_of_seen hs.recorded.entered hseen hlast
    have hversion : s.repo.version role = last.version := by
      rw [hs.versions role hseen, lastVersion_of_lastOf hlast]
    refine ⟨last, ?_, .inr rfl⟩
    rw [if_neg (by omega), hversion, hs.recorded.stored,
      lookup_lastOf (hs.recorded.entered.mono fun _ _ => Entered.named) hlast]

theorem Reads.open_eq (hs : Reads s) (hseen : Seen role)
    (hopen : s.repo.openRole s.dir role = .ok md) :
    lastOf role s.dir.log = none ∧ md = Metadata.initial role ∨
      lastOf role s.dir.log = some md := by
  obtain ⟨md', hopen', hlast⟩ := hs.openRole hseen
  exact Except.ok.inj (hopen'.symm.trans hopen) ▸ hlast

/-- Whatever an instance opens as targets is targets, and delegates to applications. -/
theorem Reads.open_targets (hs : Reads s) (hrole : role = TARGETS ∨ AppRole role)
    (hopen : s.repo.openRole s.dir role = .ok md) :
    (∃ targets, md.signed = .targets targets) ∧ (∀ name ∈ md.signed.delegates, AppRole name) ∧
      md.signed.Titled := by
  unfold Instance.openRole at hopen
  split at hopen
  · obtain rfl := Except.ok.inj hopen
    rw [Metadata.initial, initial_targets hrole]
    exact ⟨⟨_, rfl⟩, fun _ h => absurd h List.not_mem_nil, fun _ h => absurd h List.not_mem_nil⟩
  · split at hopen
    next hget =>
      obtain rfl := Except.ok.inj hopen
      rw [hs.recorded.stored] at hget
      obtain ⟨_, hadmissible⟩ := fits_of_lookup hs.recorded.entered hget
      exact ⟨targets_of_fits hadmissible.fits hrole, hadmissible.appRoles, hadmissible.titled⟩
    · cases hopen

/-! ## Publishing -/

/-- `do_snapshot` and `do_timestamp` refuse only to go back. -/
structure RefusesRollback (tuf : TufRepository) : Prop where
  snapshot : ∀ signed recorded reported e, tuf.snapshotMeta signed recorded reported = .error e →
    ∃ file version version', recorded.get file = some version ∧
      (file, version') ∈ reported ∧ version' < version
  timestamp : ∀ signed recorded reported e,
    tuf.timestampSnapshot signed recorded reported = .error e → reported < recorded

/-- A snapshot that named what there was names no version that is still to come. -/
theorem Names.le {newer older : Writes} (h : Justified Entered (newer ++ older))
    {metas : Table String Nat} (hnames : Names older metas) (hseen : Seen role) {version : Nat}
    (hget : metas.get (role ++ ".json") = some version) :
    version ≤ lastVersion role (newer ++ older) := by
  obtain ⟨other, hother, -, hnamed⟩ := hnames.only _ _ hget
  obtain rfl := snapshotFile_injective hother
  obtain ⟨md, hlast, rfl⟩ := hnamed hseen
  rw [← lastVersion_of_lastOf hlast]
  exact lastVersion_mono_of_seen h hseen

/-- What the last snapshot names is no newer than what there is. -/
theorem named_le {log : Writes} (h : Justified Entered log) {snapshot : Metadata}
    (hlast : lastOf SNAPSHOT log = some snapshot) (hseen : Seen role) {version : Nat}
    (hget : snapshot.signed.metas.get (role ++ ".json") = some version) :
    version ≤ lastVersion role log := by
  obtain ⟨newer, older, rfl, -, hadmissible⟩ := exists_of_lastOf h hlast
  obtain ⟨metas, hmetas⟩ := snapshot_of_fits hadmissible.fits
  rw [hmetas] at hget
  rw [List.append_cons] at h ⊢
  exact (hadmissible.snapshot metas hmetas).2.le h hseen hget

theorem appRole_of_informed (hs : Informed s) (hrole : role ∈ s.repo.appRoles) : AppRole role :=
  appRole_of_delegated hs.recorded.entered ((hs.appRoles role).mp hrole)

/-- `targets_infos` reports a role that is seen at its last version. -/
theorem reported_last (hs : Informed s) (hseen : Seen role)
    (hrole : role = TARGETS ∨ role ∈ delegated s.dir.log)
    (hlast : lastOf role s.dir.log = some md) :
    s.targetsInfos.get (role ++ ".json") = some md.version := by
  have hversion : s.repo.version role = md.version := by
    rw [hs.versions role hseen, lastVersion_of_lastOf hlast]
  rw [← hversion]
  refine targetsInfos_known (hrole.imp_right (hs.appRoles role).mpr) ?_
  rw [hversion]
  exact lastVersion_pos_of_seen hs.recorded.entered hseen hlast

/-- What `targets_infos` reports is named after a role, and is its last version. -/
theorem last_of_reported (hs : Informed s) {file : String} {version : Nat}
    (h : s.targetsInfos.get file = some version) :
    ∃ role, file = role ++ ".json" ∧ (role = TARGETS ∨ role ∈ delegated s.dir.log) ∧
      (Seen role → ∃ md, lastOf role s.dir.log = some md ∧ md.version = version) := by
  obtain ⟨role, hrole, rfl, hversion, hpos⟩ := targetsInfos_sound h
  refine ⟨role, rfl, hrole.imp_right (hs.appRoles role).mp, fun hseen => ?_⟩
  rw [hs.versions role hseen, lastVersion] at hversion
  cases hlast : lastOf role s.dir.log with
  | none =>
    rw [hlast] at hversion
    simp only [Option.map_none, Option.getD_none] at hversion
    omega
  | some md =>
    rw [hlast] at hversion
    exact ⟨md, rfl, hversion⟩

/-- What the opened snapshot records is reported again, or belongs to a role that is not seen. -/
theorem recorded_of_open (hs : Informed s) (htargets : (lastOf TARGETS s.dir.log).isSome)
    (hopen : s.repo.openRole s.dir SNAPSHOT = .ok md) {recorded : Table String Nat}
    (hrecorded : md.signed = .snapshot recorded) {file : String} {version : Nat}
    (hget : recorded.get file = some version) :
    ∃ role, file = role ++ ".json" ∧ (role = TARGETS ∨ role ∈ delegated s.dir.log) ∧
      (Seen role → ∃ reported, s.targetsInfos.get file = some reported ∧ version ≤ reported) := by
  have hlastOf (role : String) (hseen : Seen role)
      (hrole : role = TARGETS ∨ role ∈ delegated s.dir.log)
      (hpos : 0 < lastVersion role s.dir.log) :
      s.targetsInfos.get (role ++ ".json") = some (lastVersion role s.dir.log) := by
    cases hlast : lastOf role s.dir.log with
    | none => simp [lastVersion, hlast] at hpos
    | some md => rw [reported_last hs hseen hrole hlast, lastVersion_of_lastOf hlast]
  obtain ⟨hnone, rfl⟩ | hlast := hs.open_eq seen_snapshot hopen
  · -- the initial snapshot names the first version of the top-level targets
    obtain rfl := Signed.snapshot.inj hrecorded
    obtain ⟨targets, htargets⟩ := Option.isSome_iff_exists.mp htargets
    have hpos := lastVersion_pos_of_seen hs.recorded.entered seen_targets htargets
    rw [← lastVersion_of_lastOf htargets] at hpos
    have hfile : file = TARGETS ++ ".json" ∧ version = 1 := by
      by_cases hfile : file = "targets.json"
      · subst hfile
        exact ⟨rfl, (Option.some.inj hget).symm⟩
      · simp [Table.get, List.lookup_cons, beq_eq_false_iff_ne.mpr hfile] at hget
    obtain ⟨rfl, rfl⟩ := hfile
    exact ⟨TARGETS, rfl, .inl rfl, fun hseen => ⟨_, hlastOf TARGETS hseen (.inl rfl) hpos, hpos⟩⟩
  · obtain ⟨newer, older, hsplit, -, hadmissible⟩ := exists_of_lastOf hs.recorded.entered hlast
    have hentered := hs.recorded.entered
    have hnames := (hadmissible.snapshot recorded hrecorded).2
    obtain ⟨role, rfl, hrole, hnamed⟩ := hnames.only file version hget
    rw [hsplit, List.append_cons] at hentered
    have hrole : role = TARGETS ∨ role ∈ delegated s.dir.log := by
      refine hrole.imp_right fun hmem => ?_
      rw [hsplit, List.append_cons]
      exact delegated_mono_of_entered hentered hmem
    refine ⟨role, rfl, hrole, fun hseen => ?_⟩
    obtain ⟨named, hlast', rfl⟩ := hnamed hseen
    have hle : named.version ≤ lastVersion role s.dir.log := by
      rw [hsplit, List.append_cons]
      exact hnames.le hentered hseen hget
    have hpos := lastVersion_pos_of_seen hentered.older hseen hlast'
    exact ⟨_, hlastOf role hseen hrole (Nat.lt_of_lt_of_le hpos hle), hle⟩

/-- What `do_snapshot` writes. -/
theorem names_of_update (hs : Informed s) (htargets : (lastOf TARGETS s.dir.log).isSome)
    (hlists : ListsReported out.tuf) (hopen : s.repo.openRole s.dir SNAPSHOT = .ok md)
    {b : Bool} {recorded metas : Table String Nat} (hrecorded : md.signed = .snapshot recorded)
    (hmetas : out.tuf.snapshotMeta b recorded s.targetsInfos = .ok (some metas)) :
    Names s.dir.log metas where
  all role hseen hrole last hlast :=
    hlists _ _ _ _ hmetas _ _ (reported_last hs hseen hrole hlast)
  only file version hget := by
    obtain hreported | ⟨hnone, hkept⟩ := out.tuf.snapshot_updates _ _ _ _ hmetas file version hget
    · exact last_of_reported hs hreported
    · obtain ⟨role, hfile, hrole, hreported⟩ :=
        recorded_of_open hs htargets hopen hrecorded hkept
      refine ⟨role, hfile, hrole, fun hseen => ?_⟩
      obtain ⟨_, hsome, -⟩ := hreported hseen
      cases hnone.symm.trans hsome

/-- Where `do_snapshot` skips, the last snapshot names what there is. -/
theorem snapshotted_of_skip (hs : Informed s) (htargets : (lastOf TARGETS s.dir.log).isSome)
    (hopen : s.repo.openRole s.dir SNAPSHOT = .ok md) {recorded : Table String Nat}
    (hrecorded : md.signed = .snapshot recorded)
    (hskip : out.tuf.snapshotMeta (!md.signatures.isEmpty) recorded s.targetsInfos = .ok none) :
    Snapshotted s.dir.log := by
  obtain ⟨hsigned, hsame⟩ := (out.tuf.snapshot_skips _ _ _).mp hskip
  obtain ⟨-, rfl⟩ | hlast := hs.open_eq seen_snapshot hopen
  · cases hsigned
  · refine ⟨md, hlast, ?_⟩
    rw [hrecorded]
    refine ⟨fun role hseen hrole last hlast => hsame _ _ (reported_last hs hseen hrole hlast),
      fun file version hget => ?_⟩
    obtain ⟨role, hfile, hrole, hreported⟩ :=
      recorded_of_open hs htargets hopen hrecorded hget
    refine ⟨role, hfile, hrole, fun hseen => ?_⟩
    obtain ⟨reported, hsome, -⟩ := hreported hseen
    obtain rfl := Option.some.inj ((hsame _ _ hsome).symm.trans hget)
    obtain ⟨other, hother, -, hnamed⟩ := last_of_reported hs hsome
    obtain rfl := snapshotFile_injective (hfile.symm.trans hother)
    exact hnamed hseen

/-- The same directory but for the snapshot and the timestamp. -/
structure Republished {β : Type} (dir dir' : Directory β) : Prop where
  recorded : Recorded dir'
  payloads : dir'.payloads = dir.payloads
  since : dir.log <:+ dir'.log
  last : ∀ role, role ≠ SNAPSHOT → role ≠ TIMESTAMP → lastOf role dir'.log = lastOf role dir.log

theorem Republished.refl (h : Recorded dir) : Republished dir dir :=
  ⟨h, rfl, List.suffix_refl _, fun _ _ _ => rfl⟩

theorem Republished.trans {dir'' : Directory β} (h : Republished dir dir')
    (h' : Republished dir' dir'') : Republished dir dir'' :=
  ⟨h'.recorded, h'.payloads.trans h.payloads, h.since.trans h'.since,
    fun role hs ht => (h'.last role hs ht).trans (h.last role hs ht)⟩

theorem Extended.republished (h : Extended role signed dir dir')
    (hrole : role = SNAPSHOT ∨ role = TIMESTAMP) : Republished dir dir' := by
  refine ⟨h.recorded, h.payloads, h.since, fun other hsnapshot htimestamp => h.lastOf_of_ne ?_⟩
  obtain rfl | rfl := hrole
  · exact hsnapshot
  · exact htimestamp

theorem Republished.delegated (h : Republished dir dir') :
    delegated dir'.log = delegated dir.log := by
  unfold Core.delegated
  rw [h.last TARGETS (by decide) (by decide)]

theorem Republished.names (h : Republished dir dir') (hdir : Recorded dir)
    {metas : Table String Nat} (hnames : Names dir.log metas) : Names dir'.log metas := by
  have hsame (role : String) (hrole : role = TARGETS ∨ role ∈ Core.delegated dir.log) :
      lastOf role dir'.log = lastOf role dir.log := by
    obtain rfl | hmem := hrole
    · exact h.last TARGETS (by decide) (by decide)
    · have happ := appRole_of_delegated hdir.entered hmem
      exact h.last role (happ.ne (by decide)) (happ.ne (by decide))
  refine ⟨fun role hseen hrole md hlast => ?_, fun file version hget => ?_⟩
  · rw [h.delegated] at hrole
    exact hnames.all role hseen hrole md (hsame role hrole ▸ hlast)
  · obtain ⟨role, hfile, hrole, hlast⟩ := hnames.only file version hget
    refine ⟨role, hfile, h.delegated.symm ▸ hrole, fun hseen => ?_⟩
    rw [hsame role hrole]
    exact hlast hseen

/-- What an instance that publishes keeps besides. -/
structure Publishes (s s' : Session β) : Prop where
  informed : Informed s'
  republished : Republished s.dir s'.dir
  versions : ∀ role, role ≠ SNAPSHOT → role ≠ TIMESTAMP →
    s'.repo.version role = s.repo.version role
  backend : s'.repo.backend = s.repo.backend
  policies : s'.repo.policies = s.repo.policies

theorem Publishes.refl (hs : Informed s) : Publishes s s :=
  ⟨hs, .refl hs.recorded, fun _ _ _ => rfl, rfl, rfl⟩

theorem Publishes.trans {s'' : Session β} (h : Publishes s s') (h' : Publishes s' s'') :
    Publishes s s'' :=
  ⟨h'.informed, h.republished.trans h'.republished,
    fun role hs ht => (h'.versions role hs ht).trans (h.versions role hs ht),
    h'.backend.trans h.backend, h'.policies.trans h.policies⟩

theorem Publishes.keyed (h : Publishes s s') (hkeyed : Keyed role s) : Keyed role s' := by
  rw [Keyed, h.backend, h.policies]
  exact hkeyed

theorem Added.publishes (h : Added role signed s s') (hs : Informed s)
    (hrole : role = SNAPSHOT ∨ role = TIMESTAMP) : Publishes s s' := by
  have hrepublished := h.toExtended.republished hrole
  refine ⟨⟨h.reads, fun other => ?_, ?_, ?_⟩, hrepublished, fun other hsnapshot htimestamp =>
    h.versions other ?_, h.backend, h.policies⟩
  · rw [h.appRoles, hrepublished.delegated]
    exact hs.appRoles other
  · rw [h.policies]
    exact hs.topPolicies
  · rw [h.policies, h.appRoles]
    exact hs.appPolicies
  · obtain rfl | rfl := hrole
    · exact hsnapshot
    · exact htimestamp

/-- What the last snapshot of a directory says of a role. -/
def entry {β : Type} (dir : Directory β) (role : String) : Option Nat :=
  (lastOf SNAPSHOT dir.log).bind fun snapshot => snapshot.signed.metas.get (role ++ ".json")

/-- The role is not reported, or at no older version than the last snapshot records. -/
def Reaches (role : String) (s : Session β) : Prop :=
  s.repo.version role = 0 ∨
    ∀ version, entry s.dir role = some version → version ≤ s.repo.version role

/-- `do_snapshot` would leave the snapshot as it is. -/
def SnapshotStands (out : Outside β) (s : Session β) : Prop :=
  ∃ md recorded, s.repo.openRole s.dir SNAPSHOT = .ok md ∧ md.signed = .snapshot recorded ∧
    out.tuf.snapshotMeta (!md.signatures.isEmpty) recorded s.targetsInfos = .ok none

/-- `do_timestamp` would leave the timestamp as it is. -/
def TimestampStands (out : Outside β) (s : Session β) : Prop :=
  ∃ md recorded, s.repo.openRole s.dir TIMESTAMP = .ok md ∧ md.signed = .timestamp recorded ∧
    out.tuf.timestampSnapshot (!md.signatures.isEmpty) recorded s.snapshotInfo = .ok none

/-- No role is reported that would go back. -/
structure Advances (out : Outside β) (s : Session β) : Prop where
  refuses : RefusesRollback out.tuf
  reaches : ∀ role ∈ delegated s.dir.log, Seen role ∨ Reaches role s

/-- Publishing cannot fail: the keys for what is to be written are there. -/
structure CanPublish (out : Outside β) (s : Session β) : Prop extends Advances out s where
  snapshot : Keyed SNAPSHOT s ∨ SnapshotStands out s
  timestamp : Keyed TIMESTAMP s ∨ SnapshotStands out s ∧ TimestampStands out s

/-- Publishing cannot fail, whatever is to be written. -/
structure Equipped (out : Outside β) (s : Session β) : Prop extends Advances out s where
  keys : Keyed SNAPSHOT s ∧ Keyed TIMESTAMP s

theorem Equipped.canPublish (h : Equipped out s) : CanPublish out s :=
  ⟨h.toAdvances, .inl h.keys.1, .inl h.keys.2⟩

theorem snapshot_of_open (hs : Reads s) (hopen : s.repo.openRole s.dir SNAPSHOT = .ok md) :
    ∃ recorded, md.signed = .snapshot recorded := by
  obtain ⟨-, rfl⟩ | hlast := hs.open_eq seen_snapshot hopen
  · exact ⟨_, rfl⟩
  · obtain ⟨_, hadmissible⟩ := Admissible.of_lastOf hs.recorded.entered hlast
    exact snapshot_of_fits hadmissible.fits

theorem timestamp_of_open (hs : Reads s) (hopen : s.repo.openRole s.dir TIMESTAMP = .ok md) :
    ∃ recorded, md.signed = .timestamp recorded := by
  obtain ⟨-, rfl⟩ | hlast := hs.open_eq seen_timestamp hopen
  · exact ⟨_, rfl⟩
  · obtain ⟨_, hadmissible⟩ := Admissible.of_lastOf hs.recorded.entered hlast
    exact timestamp_of_fits hadmissible.fits

/-- Nothing that a snapshot records is newer than what is reported. -/
theorem snapshotMeta_ok (hs : Informed s) (htargets : (lastOf TARGETS s.dir.log).isSome)
    (hcan : CanPublish out s) (hopen : s.repo.openRole s.dir SNAPSHOT = .ok md)
    {recorded : Table String Nat} (hrecorded : md.signed = .snapshot recorded) (b : Bool) :
    ∃ metas, out.tuf.snapshotMeta b recorded s.targetsInfos = .ok metas := by
  cases hmetas : out.tuf.snapshotMeta b recorded s.targetsInfos with
  | ok metas => exact ⟨metas, rfl⟩
  | error e =>
    obtain ⟨file, version, version', hget, hreported, hlt⟩ := hcan.refuses.snapshot _ _ _ _ hmetas
    obtain ⟨role, hfile, hrole, hlast⟩ := recorded_of_open hs htargets hopen hrecorded hget
    obtain ⟨same, -, hsame, rfl, hpos⟩ := mem_targetsInfos hreported
    obtain rfl := snapshotFile_injective (hfile.symm.trans hsame)
    have hseen : Seen role := by
      obtain rfl | hmem := hrole
      · exact seen_targets
      refine (hcan.reaches role hmem).resolve_right fun hreaches => ?_
      have hle := hreaches.resolve_left (Nat.ne_of_gt hpos) version
      obtain ⟨-, rfl⟩ | hlast := hs.open_eq seen_snapshot hopen
      · -- the initial snapshot names nothing but the top-level targets
        obtain rfl := Signed.snapshot.inj hrecorded
        have hne : role ++ ".json" ≠ "targets.json" := fun heq =>
          (appRole_of_delegated hs.recorded.entered hmem).ne (by decide)
            (@snapshotFile_injective role TARGETS heq)
        rw [hfile, Table.get, List.lookup_cons, beq_eq_false_iff_ne.mpr hne] at hget
        cases hget
      · rw [entry, hlast, Option.bind_some, hrecorded, ← hfile] at hle
        exact absurd (hle hget) (Nat.not_le.mpr hlt)
    obtain ⟨reported, hsome, hle⟩ := hlast hseen
    obtain ⟨other, -, hother, rfl, -⟩ := targetsInfos_sound hsome
    obtain rfl := snapshotFile_injective (hfile.symm.trans hother)
    omega

/-- After `do_snapshot` the last snapshot names what there is: it was written now, or before. -/
theorem doSnapshot_added (hs : Informed s) (htargets : (lastOf TARGETS s.dir.log).isSome)
    (hlists : ListsReported out.tuf) (hR : R s ∨ CanPublish out s) (hK : K s.dir) :
    (doSnapshot out).Ensures s
      (fun _ s' => Snapshotted s'.dir.log ∧ (s' = s ∧ SnapshotStands out s ∨
        ¬ SnapshotStands out s ∧ Keyed SNAPSHOT s ∧
          ∃ metas, Added SNAPSHOT (.snapshot metas) s s'))
      R (fun s' => K s'.dir) := by
  refine .read_bind ((edit_added hs.toReads (fun md signed hopen hchange => ?_)
    (hR.imp_right fun hcan => ?_)).mono ?_)
  · obtain ⟨recorded, hrecorded⟩ := snapshot_of_open hs.toReads hopen
    simp only [hrecorded] at hchange
    split at hchange
    next metas hmetas =>
      obtain ⟨metas, rfl, rfl⟩ := Option.map_eq_some_iff.mp (Except.ok.inj hchange)
      refine ⟨⟨rfl, fun h => absurd h (by decide), fun _ h => absurd h List.not_mem_nil,
        fun _ h => absurd h List.not_mem_nil, fun metas' hmetas' => ?_, nofun⟩, hK,
        fun h => absurd h (by decide)⟩
      obtain rfl := Signed.snapshot.inj hmetas'
      exact ⟨htargets, names_of_update hs htargets hlists hopen hrecorded hmetas⟩
    · cases hchange
  · obtain ⟨md, hopen, -⟩ := hs.toReads.openRole seen_snapshot
    obtain ⟨recorded, hrecorded⟩ := snapshot_of_open hs.toReads hopen
    obtain ⟨metas, hmetas⟩ := snapshotMeta_ok hs htargets hcan hopen hrecorded
      (!md.signatures.isEmpty)
    refine ⟨md, metas.map .snapshot, hopen, ?_, fun hsome => hcan.snapshot.resolve_right ?_⟩
    · simp only [hrecorded, hmetas]
    · rintro ⟨md', recorded', hopen', hrecorded', hskip⟩
      obtain rfl := Except.ok.inj (hopen.symm.trans hopen')
      obtain rfl := Signed.snapshot.inj (hrecorded.symm.trans hrecorded')
      obtain rfl := Except.ok.inj (hmetas.symm.trans hskip)
      cases hsome
  · rintro - s' ⟨md, hopen, hwritten⟩
    obtain ⟨recorded, hrecorded⟩ := snapshot_of_open hs.toReads hopen
    simp only [hrecorded] at hwritten
    obtain ⟨hskip, rfl⟩ | ⟨signed, hchange, hkeyed, hadded⟩ := hwritten
    · split at hskip
      next metas hmetas =>
        obtain rfl := Option.map_eq_none_iff.mp (Except.ok.inj hskip)
        exact ⟨snapshotted_of_skip hs htargets hopen hrecorded hmetas,
          .inl ⟨rfl, md, recorded, hopen, hrecorded, hmetas⟩⟩
      · cases hskip
    · split at hchange
      next metas hmetas =>
        obtain ⟨metas, rfl, rfl⟩ := Option.map_eq_some_iff.mp (Except.ok.inj hchange)
        have hnames := names_of_update hs htargets hlists hopen hrecorded hmetas
        obtain ⟨snapshot, hlast, hsigned, -⟩ := hadded.toExtended.lastOf_self
        refine ⟨⟨snapshot, hlast, ?_⟩, .inr ⟨?_, hkeyed, metas, hadded⟩⟩
        · rw [hsigned]
          exact (hadded.toExtended.republished (.inl rfl)).names hs.recorded hnames
        · rintro ⟨md', recorded', hopen', hrecorded', hskip⟩
          obtain rfl := Except.ok.inj (hopen.symm.trans hopen')
          obtain rfl := Signed.snapshot.inj (hrecorded.symm.trans hrecorded')
          cases hmetas.symm.trans hskip
      · cases hchange

/-- The timestamp names the last snapshot, and that one names what there is. -/
def Announced (log : Writes) : Prop :=
  ∃ timestamp snapshot, lastOf TIMESTAMP log = some timestamp ∧
    lastOf SNAPSHOT log = some snapshot ∧ timestamp.signed = .timestamp snapshot.version ∧
    Names log snapshot.signed.metas

theorem snapshotInfo_last (hs : Reads s) {snapshot : Metadata}
    (hlast : lastOf SNAPSHOT s.dir.log = some snapshot) : s.snapshotInfo = snapshot.version := by
  have hpos := lastVersion_pos_of_seen hs.recorded.entered seen_snapshot hlast
  have hversion := hs.versions SNAPSHOT seen_snapshot
  rw [lastVersion_of_lastOf hlast, Instance.version] at hversion
  rw [Session.snapshotInfo]
  cases hget : s.repo.versions.get SNAPSHOT with
  | none =>
    rw [hget, Option.getD_none] at hversion
    omega
  | some version => rw [hget] at hversion; exact hversion

/-- What a timestamp names is no newer than the last snapshot. -/
theorem timestamped_le {log : Writes} (h : Justified Entered log) {timestamp : Metadata}
    (hlast : lastOf TIMESTAMP log = some timestamp) {version : Nat}
    (hsigned : timestamp.signed = .timestamp version) : version ≤ lastVersion SNAPSHOT log := by
  obtain ⟨newer, older, rfl, -, hadmissible⟩ := exists_of_lastOf h hlast
  obtain ⟨snapshot, hsnapshot, rfl, -⟩ := hadmissible.timestamp version hsigned
  rw [← lastVersion_of_lastOf hsnapshot]
  rw [List.append_cons] at h ⊢
  exact lastVersion_mono_of_seen h seen_snapshot

theorem doTimestamp_added (hs : Informed s) (htargets : (lastOf TARGETS s.dir.log).isSome)
    (hsnapshotted : Snapshotted s.dir.log)
    (hR : R s ∨ (Keyed TIMESTAMP s ∨ TimestampStands out s) ∧ RefusesRollback out.tuf)
    (hK : K s.dir) :
    (doTimestamp out).Ensures s
      (fun _ s' => Announced s'.dir.log ∧ (s' = s ∧ TimestampStands out s ∨
        Keyed TIMESTAMP s ∧ ∃ version, Added TIMESTAMP (.timestamp version) s s'))
      R (fun s' => K s'.dir) := by
  obtain ⟨snapshot, hsnapshot, hnames⟩ := hsnapshotted
  have hinfo := snapshotInfo_last hs.toReads hsnapshot
  refine .read_bind ((edit_added hs.toReads (fun md signed hopen hchange => ?_)
    (hR.imp_right fun hcan => ?_)).mono ?_)
  · obtain ⟨recorded, hrecorded⟩ := timestamp_of_open hs.toReads hopen
    simp only [hrecorded, hinfo] at hchange
    split at hchange
    next version hversion =>
      obtain ⟨version, rfl, rfl⟩ := Option.map_eq_some_iff.mp (Except.ok.inj hchange)
      refine ⟨⟨rfl, fun h => absurd h (by decide), fun _ h => absurd h List.not_mem_nil,
        fun _ h => absurd h List.not_mem_nil, nofun, fun version' hversion' => ?_⟩, hK,
        fun h => absurd h (by decide)⟩
      obtain rfl := Signed.timestamp.inj hversion'
      exact ⟨snapshot, hsnapshot, (out.tuf.timestamp_updates _ _ _ _ hversion).symm, htargets,
        hnames⟩
    · cases hchange
  · obtain ⟨md, hopen, hmd⟩ := hs.toReads.openRole seen_timestamp
    obtain ⟨recorded, hrecorded⟩ := timestamp_of_open hs.toReads hopen
    cases hversion : out.tuf.timestampSnapshot (!md.signatures.isEmpty) recorded
      s.snapshotInfo with
    | ok version =>
      refine ⟨md, version.map .timestamp, hopen, ?_, fun hsome => hcan.1.resolve_right ?_⟩
      · simp only [hrecorded, hversion]
      · rintro ⟨md', recorded', hopen', hrecorded', hskip⟩
        obtain rfl := Except.ok.inj (hopen.symm.trans hopen')
        obtain rfl := Signed.timestamp.inj (hrecorded.symm.trans hrecorded')
        obtain rfl := Except.ok.inj (hversion.symm.trans hskip)
        cases hsome
    | error e =>
      have hlt := hcan.2.timestamp _ _ _ _ hversion
      have hpos := lastVersion_pos_of_seen hs.recorded.entered seen_snapshot hsnapshot
      obtain ⟨-, rfl⟩ | hlast := hmd
      · obtain rfl := Signed.timestamp.inj hrecorded
        omega
      · have hle := timestamped_le hs.recorded.entered hlast hrecorded
        rw [lastVersion_of_lastOf hsnapshot] at hle
        omega
  · rintro - s' ⟨md, hopen, hwritten⟩
    obtain ⟨recorded, hrecorded⟩ := timestamp_of_open hs.toReads hopen
    simp only [hrecorded, hinfo] at hwritten
    obtain ⟨hskip, rfl⟩ | ⟨signed, hchange, hkeyed, hadded⟩ := hwritten
    · split at hskip
      next version hversion =>
        obtain rfl := Option.map_eq_none_iff.mp (Except.ok.inj hskip)
        have hstands : TimestampStands out s' := ⟨md, _, hopen, hrecorded, hinfo.symm ▸ hversion⟩
        obtain ⟨hsigned, rfl⟩ := (out.tuf.timestamp_skips _ _ _).mp hversion
        obtain ⟨-, rfl⟩ | hlast := hs.toReads.open_eq seen_timestamp hopen
        · cases hsigned
        · exact ⟨⟨md, snapshot, hlast, hsnapshot, hrecorded, hnames⟩, .inl ⟨rfl, hstands⟩⟩
      · cases hskip
    · split at hchange
      next version hversion =>
        obtain ⟨version, rfl, rfl⟩ := Option.map_eq_some_iff.mp (Except.ok.inj hchange)
        obtain rfl := out.tuf.timestamp_updates _ _ _ _ hversion
        obtain ⟨timestamp, hlast, hsigned, -⟩ := hadded.toExtended.lastOf_self
        have hsame := hadded.toExtended.lastOf_of_ne (show SNAPSHOT ≠ TIMESTAMP by decide)
        refine ⟨⟨timestamp, snapshot, hlast, hsame.trans hsnapshot, hsigned, ?_⟩,
          .inr ⟨hkeyed, _, hadded⟩⟩
        exact (hadded.toExtended.republished (.inr rfl)).names hs.recorded hnames
      · cases hchange

/-- A file of a targets role that is newer than the last snapshot is not in it. -/
theorem not_snapshotted_of_newer {log log' : Writes} (h : Justified Entered log)
    (hsame : lastOf SNAPSHOT log' = lastOf SNAPSHOT log) (hseen : Seen role)
    (hrole : role = TARGETS ∨ role ∈ Core.delegated log') (hlast : lastOf role log' = some md)
    (hnewer : lastVersion role log < md.version) : ¬ Snapshotted log' := by
  rintro ⟨snapshot, hsnapshot, hnames⟩
  rw [hsame] at hsnapshot
  have hle := named_le h hsnapshot hseen (hnames.all role hseen hrole md hlast)
  omega

/-- Publishing leaves a timestamp that announces what there is. What it writes it has the keys
for. -/
theorem publish_added (hs : Informed s) (htargets : (lastOf TARGETS s.dir.log).isSome)
    (hlists : ListsReported out.tuf)
    (hR : (∀ s', Publishes s s' → R s') ∨ CanPublish out s)
    (hK : ∀ dir, Republished s.dir dir → K dir) :
    (publish out).Ensures s
      (fun _ s' => Announced s'.dir.log ∧ Publishes s s' ∧
        (Keyed SNAPSHOT s ∧ Keyed TIMESTAMP s ∨ Snapshotted s.dir.log ∧ SnapshotStands out s ∧
          (Keyed TIMESTAMP s ∨ TimestampStands out s)))
      R (fun s' => K s'.dir) := by
  refine .bind (doSnapshot_added hs htargets hlists (hR.imp_left fun h => h s (.refl hs))
    (hK _ (.refl hs.recorded))) ?_
  rintro - s₁ ⟨hsnapshotted, hwritten⟩
  have hs₁ : Publishes s s₁ := by
    obtain ⟨rfl, -⟩ | ⟨-, -, metas, hadded⟩ := hwritten
    · exact .refl hs
    · exact hadded.publishes hs (.inl rfl)
  have htargets₁ : (lastOf TARGETS s₁.dir.log).isSome := by
    rwa [hs₁.republished.last TARGETS (by decide) (by decide)]
  refine (doTimestamp_added hs₁.informed htargets₁ hsnapshotted
    (hR.imp (fun h => h s₁ hs₁) fun h => ⟨?_, h.refuses⟩) (hK _ hs₁.republished)).mono ?_
  · obtain hkeyed | ⟨hstands, htimestamp⟩ := h.timestamp
    · exact .inl (hs₁.keyed hkeyed)
    · obtain ⟨rfl, -⟩ | ⟨hnot, -⟩ := hwritten
      · exact .inr htimestamp
      · exact absurd hstands hnot
  rintro - s₂ ⟨hannounced, hwritten₂⟩
  refine ⟨hannounced, ?_, ?_⟩
  · obtain ⟨rfl, -⟩ | ⟨-, version, hadded⟩ := hwritten₂
    · exact hs₁
    · exact hs₁.trans (hadded.publishes hs₁.informed (.inr rfl))
  · obtain ⟨rfl, hstands⟩ | ⟨-, hkeyed, metas, hadded⟩ := hwritten
    · exact .inr ⟨hsnapshotted, hstands, hwritten₂.symm.imp And.left And.right⟩
    refine .inl ⟨hkeyed, ?_⟩
    obtain ⟨rfl, -⟩ | ⟨⟨policy, hpolicy, henough⟩, -⟩ := hwritten₂
    · -- the timestamp cannot have named the new snapshot before
      obtain ⟨timestamp, snapshot, htimestamp, hsnapshot, hsigned, -⟩ := hannounced
      rw [hadded.toExtended.lastOf_of_ne (by decide)] at htimestamp
      have hle := timestamped_le hs.recorded.entered htimestamp hsigned
      obtain ⟨md, hmd, -, hversion⟩ := hadded.toExtended.lastOf_self
      obtain rfl := Option.some.inj (hmd.symm.trans hsnapshot)
      have := hversion seen_snapshot
      omega
    · exact ⟨policy, hs₁.policies ▸ hpolicy, hs₁.backend ▸ henough⟩

end Steps

end DistPlatform.Core
