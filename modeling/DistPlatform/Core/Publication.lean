import DistPlatform.Core.Repository
import DistPlatform.Library.Runs

/-!
# What a published directory keeps

Everything a metadata file refers to is on disk before the file is, and no versioned file is
written twice. The first is about the directory alone and holds at every instant; the second
rests on an instance knowing the versions that the directory holds.

## Main definitions

* `Closed`, `WrittenOnce`, `timestampVersions` — the properties of a directory.
* `Sound` — what the directory keeps at every instant.
* `Knows` — what an instance knows of the directory between two writes.
-/

namespace DistPlatform.Core

open DistPlatform

/-! ## The properties -/

section Properties

variable {β : Type} (out : Outside β) (dir : Directory β)

/-- The payload of a listed target is stored, with its digest and length. -/
def HasPayload (path : String) (file : TargetFile) : Prop :=
  ∃ payload, dir.payloads.get (payloadPath path file.sha256) = some payload ∧
    out.sha256 payload = file.sha256 ∧ out.length payload = file.length

/-- From the timestamp to the payloads, every reference is to something on disk. -/
def Closed : Prop :=
  ∀ timestamp, dir.metadata.get "timestamp.json" = some timestamp →
    ∃ version snapshot metas, timestamp.signed = .timestamp version ∧
      dir.metadata.get (filename SNAPSHOT version) = some snapshot ∧
      snapshot.signed = .snapshot metas ∧
      ∀ file version, metas.get file = some version →
        ∃ role targets, dir.metadata.get (toString version ++ "." ++ file) = some role ∧
          role.signed = .targets targets ∧
          ∀ path target, targets.targets.get path = some target →
            HasPayload out dir path target

/-- No versioned file has been written with two contents. -/
def WrittenOnce : Prop :=
  ∀ role version md md', role ≠ TIMESTAMP → (filename role version, md) ∈ dir.history →
    (filename role version, md') ∈ dir.history → md = md'

/-- The versions `timestamp.json` has had, in order. -/
def timestampVersions : List Nat :=
  (dir.history.filter (·.1 = "timestamp.json")).map (·.2.version)

end Properties

/-! ## The invariant of the directory -/

/-- A role that stands for an application. -/
def AppRole (role : String) : Prop := ∃ appId, appRoleName appId = .ok role

/-- The kind of content a role's file has. -/
def Signed.Fits (role : String) : Signed → Prop
  | .root _ => role = ROOT
  | .targets _ => role = TARGETS ∨ AppRole role
  | .snapshot _ => role = SNAPSHOT
  | .timestamp _ => role = TIMESTAMP

section Invariants

variable {β : Type} (out : Outside β)

/-- What the content refers to is on disk. -/
def Backed (dir : Directory β) : Signed → Prop
  | .root _ => True
  | .targets targets =>
    (∀ path file, targets.targets.get path = some file → HasPayload out dir path file) ∧
      ∀ delegations, targets.delegations = some delegations →
        ∀ role ∈ delegations.roles.map (·.1), AppRole role
  | .snapshot metas => ∀ file version, metas.get file = some version →
      ∃ role md targets, file = role ++ ".json" ∧ role ≠ TIMESTAMP ∧
        dir.metadata.get (filename role version) = some md ∧ md.signed = .targets targets
  | .timestamp version => (dir.metadata.get (filename SNAPSHOT version)).isSome

structure Sound (dir : Directory β) : Prop where
  distinct : (dir.metadata.map (·.1)).Nodup
  backed : ∀ name md, dir.metadata.get name = some md → Backed out dir md.signed
  fits : ∀ role version md, dir.metadata.get (filename role version) = some md →
    md.signed.Fits role
  named : ∀ name md, dir.metadata.get name = some md →
    name = "root.json" ∨ ∃ role version, name = filename role version
  kept : ∀ file ∈ dir.history, (dir.metadata.get file.1).isSome
  once : WrittenOnce dir
  times : (timestampVersions dir).Pairwise (· ≤ ·)
  latest : ∀ version ∈ timestampVersions dir,
    ∃ md, dir.metadata.get "timestamp.json" = some md ∧ version ≤ md.version

/-- Between two writes the instance knows the last version of every role. -/
structure Knows (repo : Instance) (dir : Directory β) : Prop where
  upper : ∀ role version, role ≠ TIMESTAMP →
    (dir.metadata.get (filename role version)).isSome → version ≤ repo.version role
  lower : ∀ role, 0 < repo.version role →
    (dir.metadata.get (filename role (repo.version role))).isSome
  timestamp : ∀ md, dir.metadata.get "timestamp.json" = some md →
    md.version ≤ repo.version TIMESTAMP
  appRoles : ∀ role ∈ repo.appRoles, AppRole role
  targets : repo.appRoles ≠ [] → 0 < repo.version TARGETS

/-- Nothing that is referred to is lost. -/
structure Extends (dir dir' : Directory β) : Prop where
  files : ∀ role version md, role ≠ TIMESTAMP →
    dir.metadata.get (filename role version) = some md →
    dir'.metadata.get (filename role version) = some md
  payloads : ∀ path file, HasPayload out dir path file → HasPayload out dir' path file

structure Inv (s : Session β) : Prop where
  sound : Sound out s.dir
  knows : Knows s.repo s.dir

/-- What an operation on the way leaves as it is, or larger. -/
structure Grows (s s' : Session β) : Prop where
  files : Extends out s.dir s'.dir
  appRoles : s'.repo.appRoles = s.repo.appRoles
  versions : ∀ role, s.repo.version role ≤ s'.repo.version role

end Invariants

/-! ## Roles -/

theorem AppRole.toList {role : String} (h : AppRole role) :
    ∃ rest, role.toList = "app-".toList ++ rest := by
  obtain ⟨appId, happ⟩ := h
  obtain ⟨-, rfl⟩ := appRoleName_eq_ok.mp happ
  exact ⟨appId.toList, by simp [APP_ROLE_PREFIX]⟩

/-- An application's role is none of the top-level roles. -/
theorem AppRole.ne {role top : String} (h : AppRole role)
    (htop : top.toList.take 4 ≠ "app-".toList) : role ≠ top := by
  rintro rfl
  obtain ⟨rest, hrest⟩ := h.toList
  exact htop (by rw [hrest]; rfl)

theorem Signed.Fits.ne_empty {role : String} {signed : Signed} (h : signed.Fits role) :
    role ≠ "" := by
  cases signed with
  | root | snapshot | timestamp =>
    obtain rfl := h
    decide
  | targets =>
    obtain rfl | h := h
    · decide
    · exact h.ne (by decide)

theorem ne_timestamp_of_targets {role : String} (h : role = TARGETS ∨ AppRole role) :
    role ≠ TIMESTAMP := by
  obtain rfl | h := h
  · decide
  · exact h.ne (by decide)

/-- A file of a targets role holds targets. -/
theorem targets_of_fits {role : String} {signed : Signed} (h : signed.Fits role)
    (hrole : role = TARGETS ∨ AppRole role) : ∃ targets, signed = .targets targets := by
  have hne (top : String) (ht : TARGETS ≠ top) (happ : top.toList.take 4 ≠ "app-".toList) :
      role ≠ top := by
    obtain rfl | hrole := hrole
    · exact ht
    · exact hrole.ne happ
  cases signed with
  | root => exact absurd h (hne ROOT (by decide) (by decide))
  | targets targets => exact ⟨targets, rfl⟩
  | snapshot => exact absurd h (hne SNAPSHOT (by decide) (by decide))
  | timestamp => exact absurd h (hne TIMESTAMP (by decide) (by decide))

theorem snapshot_of_fits {signed : Signed} (h : signed.Fits SNAPSHOT) :
    ∃ metas, signed = .snapshot metas := by
  cases signed with
  | root => exact absurd h (by simp [Signed.Fits, SNAPSHOT, ROOT])
  | targets =>
    obtain h | h := h
    · exact absurd h (by decide)
    · exact absurd rfl (h.ne (by decide))
  | snapshot metas => exact ⟨metas, rfl⟩
  | timestamp => exact absurd h (by simp [Signed.Fits, SNAPSHOT, TIMESTAMP])

theorem timestamp_of_fits {signed : Signed} (h : signed.Fits TIMESTAMP) :
    ∃ version, signed = .timestamp version := by
  cases signed with
  | root => exact absurd h (by simp [Signed.Fits, TIMESTAMP, ROOT])
  | targets =>
    obtain h | h := h
    · exact absurd h (by decide)
    · exact absurd rfl (h.ne (by decide))
  | snapshot => exact absurd h (by simp [Signed.Fits, TIMESTAMP, SNAPSHOT])
  | timestamp version => exact ⟨version, rfl⟩

/-! ## Closure -/

section Closure

variable {β : Type} {out : Outside β} {dir dir' : Directory β}

theorem Extends.refl (dir : Directory β) : Extends out dir dir :=
  ⟨fun _ _ _ _ h => h, fun _ _ h => h⟩

theorem Extends.trans {dir'' : Directory β} (h : Extends out dir dir')
    (h' : Extends out dir' dir'') : Extends out dir dir'' :=
  ⟨fun role version md hne hget => h'.files role version md hne (h.files role version md hne hget),
    fun path file hhas => h'.payloads path file (h.payloads path file hhas)⟩

theorem Grows.refl (s : Session β) : Grows out s s :=
  ⟨.refl _, rfl, fun _ => Nat.le_refl _⟩

theorem Grows.trans {s s' s'' : Session β} (h : Grows out s s') (h' : Grows out s' s'') :
    Grows out s s'' :=
  ⟨h.files.trans h'.files, h'.appRoles.trans h.appRoles,
    fun role => Nat.le_trans (h.versions role) (h'.versions role)⟩

theorem Backed.mono (h : Extends out dir dir') {signed : Signed} (hs : Backed out dir signed) :
    Backed out dir' signed := by
  cases signed with
  | root => trivial
  | targets targets =>
    exact ⟨fun path file hget => h.payloads path file (hs.1 path file hget), hs.2⟩
  | snapshot metas =>
    intro file version hget
    obtain ⟨role, md, targets, hfile, hne, hmd, htargets⟩ := hs file version hget
    exact ⟨role, md, targets, hfile, hne, h.files role version md hne hmd, htargets⟩
  | timestamp version =>
    obtain ⟨md, hmd⟩ := Option.isSome_iff_exists.mp hs
    exact Option.isSome_iff_exists.mpr ⟨md, h.files SNAPSHOT version md (by decide) hmd⟩

/-- A sound directory is closed: the references are followed down from the timestamp. -/
theorem Sound.closed (h : Sound out dir) : Closed out dir := by
  intro timestamp htimestamp
  obtain ⟨version, hversion⟩ := timestamp_of_fits (h.fits TIMESTAMP 0 timestamp htimestamp)
  have hnamed := h.backed _ _ htimestamp
  rw [hversion] at hnamed
  obtain ⟨snapshot, hsnapshot⟩ := Option.isSome_iff_exists.mp hnamed
  obtain ⟨metas, hmetas⟩ := snapshot_of_fits (h.fits SNAPSHOT version snapshot hsnapshot)
  have hroles := h.backed _ _ hsnapshot
  rw [hmetas] at hroles
  refine ⟨version, snapshot, metas, hversion, hsnapshot, hmetas, fun file v hfile => ?_⟩
  obtain ⟨role, md, targets, rfl, hne, hmd, htargets⟩ := hroles file v hfile
  have hname : filename role v = toString v ++ "." ++ (role ++ ".json") := by
    rw [filename, if_neg hne, String.append_assoc]
  have hlisted := h.backed _ _ hmd
  rw [htargets] at hlisted
  exact ⟨md, targets, hname ▸ hmd, htargets, hlisted.1⟩

/-! ## Writes keep a directory sound -/

theorem timestampVersions_put (dir : Directory β) (name : String) (md : Metadata) :
    timestampVersions (dir.put name md) = timestampVersions dir ++
      if name = "timestamp.json" then [md.version] else [] := by
  by_cases h : name = "timestamp.json" <;> simp [timestampVersions, Directory.put, h]

theorem get_put_metadata (dir : Directory β) (name other : String) (md : Metadata) :
    (dir.put name md).metadata.get other =
      if other = name then some md else dir.metadata.get other :=
  Table.get_put _ _ _ _

/-- A metadata file that is new, or one of the two without a version, and refers only to what is
there. -/
theorem Sound.put (h : Sound out dir) {name : String} {md : Metadata}
    (hfresh : ∀ role version, role ≠ TIMESTAMP → name = filename role version →
      dir.metadata.get name = none)
    (hbacked : Backed out dir md.signed)
    (hfits : ∀ role version, name = filename role version → md.signed.Fits role)
    (hnamed : name = "root.json" ∨ ∃ role version, name = filename role version)
    (htime : name = "timestamp.json" →
      ∀ old, dir.metadata.get "timestamp.json" = some old → old.version ≤ md.version) :
    Sound out (dir.put name md) ∧ Extends out dir (dir.put name md) := by
  have hextends : Extends out dir (dir.put name md) := by
    refine ⟨fun role version old hne hold => ?_, fun _ _ hhas => hhas⟩
    rw [get_put_metadata, if_neg]
    · exact hold
    · intro heq
      rw [← heq] at hfresh
      cases hold.symm.trans (hfresh role version hne rfl)
  refine ⟨⟨Table.nodup_put h.distinct _ _, ?backed, ?fits, ?named, ?kept, ?once, ?times, ?latest⟩, hextends⟩
  case backed =>
    intro other content hget
    rw [get_put_metadata] at hget
    split at hget
    · exact Option.some.inj hget ▸ hbacked.mono hextends
    · exact (h.backed other content hget).mono hextends
  case fits =>
    intro role version content hget
    rw [get_put_metadata] at hget
    split at hget
    next heq => exact Option.some.inj hget ▸ hfits role version heq.symm
    · exact h.fits role version content hget
  case named =>
    intro other content hget
    rw [get_put_metadata] at hget
    split at hget
    next heq => exact heq ▸ hnamed
    · exact h.named other content hget
  case kept =>
    intro file hfile
    rw [get_put_metadata]
    split
    · rfl
    next hne =>
      obtain hfile | hfile := List.mem_append.mp hfile
      · exact h.kept file hfile
      · exact absurd (congrArg Prod.fst (List.mem_singleton.mp hfile)) hne
  case once =>
    -- two writes of one versioned name are both old, or both the new one
    intro role version content content' hne hmem hmem'
    have hold (other : Metadata) (hother : (filename role version, other) ∈ dir.history) :
        filename role version ≠ name := by
      intro heq
      have hkept := h.kept _ hother
      rw [heq, hfresh role version hne heq.symm] at hkept
      cases hkept
    obtain hmem | hmem := List.mem_append.mp hmem <;>
      obtain hmem' | hmem' := List.mem_append.mp hmem'
    · exact h.once role version content content' hne hmem hmem'
    · exact absurd (congrArg Prod.fst (List.mem_singleton.mp hmem')) (hold content hmem)
    · exact absurd (congrArg Prod.fst (List.mem_singleton.mp hmem)) (hold content' hmem')
    · have hnew := congrArg Prod.snd (List.mem_singleton.mp hmem)
      exact hnew.trans (congrArg Prod.snd (List.mem_singleton.mp hmem')).symm
  case times =>
    rw [timestampVersions_put, List.pairwise_append]
    refine ⟨h.times, by split <;> simp, fun version hversion new hnew => ?_⟩
    split at hnew
    next heq =>
      obtain ⟨current, hcurrent, hle⟩ := h.latest version hversion
      rw [List.mem_singleton.mp hnew]
      exact Nat.le_trans hle (htime heq current hcurrent)
    · cases hnew
  case latest =>
    intro version hversion
    rw [timestampVersions_put] at hversion
    rw [get_put_metadata]
    split
    next heq =>
      refine ⟨md, rfl, ?_⟩
      obtain hversion | hversion := List.mem_append.mp hversion
      · obtain ⟨current, hcurrent, hle⟩ := h.latest version hversion
        exact Nat.le_trans hle (htime heq.symm current hcurrent)
      · rw [if_pos heq.symm] at hversion
        exact Nat.le_of_eq (List.mem_singleton.mp hversion)
    next hne =>
      rw [if_neg (Ne.symm hne), List.append_nil] at hversion
      exact h.latest version hversion

/-- Two payloads of one digest have one length. -/
def NoCollision (out : Outside β) (dir : Directory β) (payload : β) : Prop :=
  ∀ row ∈ dir.payloads, out.sha256 row.2 = out.sha256 payload → out.length row.2 = out.length payload

instance (out : Outside β) (dir : Directory β) (payload : β) :
    Decidable (NoCollision out dir payload) :=
  inferInstanceAs (Decidable (∀ row ∈ dir.payloads, _ → _))

/-- A stored payload replaces at most one of the same digest. -/
theorem extends_store {payload : β} (hcollision : NoCollision out dir payload) (path : String) :
    Extends out dir (dir.store (payloadPath path (out.sha256 payload)) payload) := by
  refine ⟨fun _ _ _ _ h => h, fun other file hhas => ?_⟩
  obtain ⟨stored, hget, hdigest, hlength⟩ := hhas
  by_cases heq : payloadPath other file.sha256 = payloadPath path (out.sha256 payload)
  · have hsame : out.sha256 stored = out.sha256 payload := by
      rw [hdigest]
      exact digest_of_payloadPath (hdigest ▸ out.sha256_hex stored) (out.sha256_hex payload) heq
    refine ⟨payload, ?_, hsame.symm.trans hdigest, ?_⟩
    · rw [Directory.store, Table.get_put, if_pos heq]
    · rw [← hcollision _ (Table.mem_of_get hget) hsame, hlength]
  · refine ⟨stored, ?_, hdigest, hlength⟩
    rw [Directory.store, Table.get_put_of_ne _ _ heq]
    exact hget

theorem Sound.store (h : Sound out dir) {payload : β}
    (hcollision : NoCollision out dir payload) (path : String) :
    Sound out (dir.store (payloadPath path (out.sha256 payload)) payload) where
  distinct := h.distinct
  backed name md hget := (h.backed name md hget).mono (extends_store hcollision path)
  fits := h.fits
  named := h.named
  kept := h.kept
  once := h.once
  times := h.times
  latest := h.latest

end Closure

end DistPlatform.Core
