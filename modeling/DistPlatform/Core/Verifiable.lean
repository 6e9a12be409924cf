import DistPlatform.Core.Closing
import DistPlatform.Core.PublicationRuns
import Mathlib.Data.List.Dedup

/-!
# Who may sign a role, and who does

A file is signed with the keys the backend holds when it is closed. It is verified with the keys
that the root or the top-level targets listed for its role, at the time they were written.

## Main definitions

* `Scheme` — signatures, with keys known by their public halves.
* `Authority`, `Directory.authority` — what the newest delegator on disk lists for a role.
* `Verifiable` — the published file has the signatures that its delegators ask for.
* `Covers` — the backend holds enough of the listed keys.
-/

namespace DistPlatform.Core

open DistPlatform
open Runs

/-- What a signature is over. -/
abbrev Payload := Signed × Nat × Nat

def Metadata.payload (md : Metadata) : Payload := (md.signed, md.version, md.expires)

/-- A signature is valid under the key whose private half has made it, and under no other. -/
structure Scheme (σ : Type) where
  sign : String → Payload → σ
  verify : String → Payload → σ → Bool
  verify_sign : ∀ key signer payload, verify key payload (sign signer payload) = true ↔ key = signer

variable {σ β : Type}

/-- The signatures of a file by key id, as the backend makes them. -/
def SignerBackend.signatures (backend : SignerBackend) (scheme : Scheme σ) (md : Metadata) :
    List (String × σ) :=
  md.signatures.map fun keyid => (keyid, scheme.sign (backend.publicKey keyid) md.payload)

/-- What a delegator lists for one role. -/
structure Authority where
  keys : Table String String
  keyids : List String
  threshold : Nat

namespace Authority

variable (authority : Authority)

/-- The key of an id that may sign. -/
def key (keyid : String) : Option String :=
  if keyid ∈ authority.keyids then authority.keys.get keyid else none

/-- The keys, each once, under which one of the signatures is valid. -/
def signers (scheme : Scheme σ) (md : Metadata) (signatures : List (String × σ)) : List String :=
  (signatures.filterMap fun row =>
    (authority.key row.1).filter (scheme.verify · md.payload row.2)).dedup

/-- The listed keys, each once, that the backend holds for the role. -/
def held (backend : SignerBackend) (role : String) : List String :=
  ((backend.keyids role).filterMap fun keyid =>
    (authority.key keyid).filter (· == backend.publicKey keyid)).dedup

end Authority

def Signed.authority (role : String) : Signed → Option Authority
  | .root content => (content.roles.get role).map fun entry =>
    ⟨content.keys, entry.keyids, entry.threshold⟩
  | .targets content => content.delegations.bind fun delegations =>
    (delegations.roles.get role).map fun entry =>
      ⟨delegations.keys, entry.keyids, entry.threshold⟩
  | _ => none

/-- The root delegates to the top-level roles, and the top-level targets to the applications. -/
def delegator (role : String) : String :=
  if role ∈ TOP_LEVEL_POLICIES.map (·.1) then ROOT else TARGETS

/-- The newest version of a role on disk, as `_scan` finds it; an instance may remember less. -/
def Directory.newest (dir : Directory β) (role : String) : Nat := known (scanVersions dir) role

def Directory.authority (dir : Directory β) (role : String) : Option Authority :=
  (dir.metadata.get (filename (delegator role) (dir.newest (delegator role)))).bind
    (·.signed.authority role)

/-- The file that the role opens has the signatures that the authority asks for. -/
def Session.Satisfies (s : Session β) (scheme : Scheme σ) (role : String)
    (authority : Authority) : Prop :=
  ∃ file, s.opens role = .ok file ∧ authority.threshold ≤
    (authority.signers scheme file (s.repo.backend.signatures scheme file)).length

/-- After the close that led from `s` to `s'`, a client with the role's newest delegator accepts
the role's file. A client with the newest root before it has to accept a new root too. -/
structure Verifiable (scheme : Scheme σ) (role : String) (s s' : Session β) : Prop where
  current : ∃ authority,
    s'.dir.authority role = some authority ∧ s'.Satisfies scheme role authority
  previous : role = ROOT → s.dir.newest ROOT ≠ 0 → ∃ authority,
    s.dir.authority ROOT = some authority ∧ s'.Satisfies scheme role authority

/-- The keys that the role's newest delegators list for it, and that the backend holds, are
enough. The delegator of a root is that root, unless the instance is behind the directory, and the
one before it. -/
structure Covers (role : String) (signed : Signed) (s : Session β) : Prop where
  current : ∃ authority,
    (if role = ROOT ∧ s.dir.newest ROOT ≤ s.repo.version ROOT + 1 then signed.authority ROOT
      else s.dir.authority role) = some authority ∧
      authority.threshold ≤ (authority.held s.repo.backend role).length
  previous : role = ROOT → s.dir.newest ROOT ≠ 0 → ∃ authority,
    s.dir.authority ROOT = some authority ∧
      authority.threshold ≤ (authority.held s.repo.backend role).length

section Close

variable {scheme : Scheme σ} {out : Outside β} {s s' : Session β} {role : String}
  {signed : Signed} {authority : Authority}

theorem delegator_ne (hrole : role ≠ ROOT) : delegator role ≠ role := by
  unfold delegator
  split
  next => exact hrole.symm
  next hother =>
    rintro rfl
    exact hother (by decide)

/-- The backend's signatures are valid under the listed keys that it holds. -/
theorem signers_eq_held {backend : SignerBackend} {md : Metadata}
    (h : md.signatures = backend.keyids role) :
    authority.signers scheme md (backend.signatures scheme md) = authority.held backend role := by
  have hsame (keyid : String) :
      (authority.key keyid).filter
          (scheme.verify · md.payload (scheme.sign (backend.publicKey keyid) md.payload)) =
        (authority.key keyid).filter (· == backend.publicKey keyid) := by
    congr 1
    funext key
    rw [Bool.eq_iff_iff, scheme.verify_sign, beq_iff_eq]
  rw [Authority.signers, SignerBackend.signatures, h, List.filterMap_map, Authority.held]
  congr 1
  exact List.filterMap_congr fun keyid _ => hsame keyid

theorem ClosedAs.satisfies_iff (h : ClosedAs role signed s s') :
    s'.Satisfies scheme role authority ↔
      authority.threshold ≤ (authority.held s.repo.backend role).length := by
  obtain ⟨md, hopens, -, -, hsignatures⟩ := h.opened
  rw [← h.backend] at hsignatures ⊢
  constructor
  · rintro ⟨file, hfile, hle⟩
    obtain rfl : md = file := Except.ok.inj (hopens.symm.trans hfile)
    rwa [signers_eq_held hsignatures] at hle
  · intro hle
    exact ⟨md, hopens, by rwa [signers_eq_held hsignatures]⟩

end Close

/-! ## The newest delegator -/

section Newest

variable {scheme : Scheme σ} {out : Outside β} {dir : Directory β} {s s' : Session β}
  {role name : String} {signed : Signed} {authority : Authority} {md : Metadata}

theorem newest_le_iff (hrole : role ≠ TIMESTAMP) {bound : Nat} :
    dir.newest role ≤ bound ↔ ∀ file ∈ dir.metadata, ∀ version,
      matchVersioned file.1 = some (version, role) → version ≤ bound := by
  constructor
  · intro h file hfile version hmatch
    exact (scan_upper hrole hfile hmatch).trans h
  · intro h
    obtain hzero | ⟨file, hfile, hmatch⟩ := @scan_lower dir.metadata [] role hrole
    · rw [Directory.newest, scanVersions, hzero]
      exact Nat.zero_le _
    · exact h file hfile _ hmatch

theorem mem_put {file : String × Metadata} : file ∈ (dir.put name md).metadata ↔
    file = (name, md) ∨ file ∈ dir.metadata ∧ file.1 ≠ name := by
  simp [Directory.put, Table.put, Table.erase]

/-- A file that is no version of the role does not change which is the newest. -/
theorem newest_put_of_other (hrole : role ≠ TIMESTAMP)
    (hname : ∀ version, matchVersioned name ≠ some (version, role)) :
    (dir.put name md).newest role = dir.newest role := by
  refine eq_of_forall_ge_iff fun bound => ?_
  rw [newest_le_iff hrole, newest_le_iff hrole]
  constructor
  · intro h file hfile version hmatch
    refine h file (mem_put.mpr (.inr ⟨hfile, ?_⟩)) version hmatch
    rintro rfl
    exact hname version hmatch
  · intro h file hfile version hmatch
    obtain rfl | ⟨hfile, -⟩ := mem_put.mp hfile
    · exact absurd hmatch (hname version)
    · exact h file hfile version hmatch

/-- Any other file of the role may become the newest. -/
theorem newest_put_own (hrole : role ≠ TIMESTAMP) {written : Nat}
    (hname : matchVersioned name = some (written, role)) :
    (dir.put name md).newest role = max (dir.newest role) written := by
  refine eq_of_forall_ge_iff fun bound => ?_
  rw [newest_le_iff hrole, max_le_iff, newest_le_iff hrole]
  constructor
  · refine fun h => ⟨fun file hfile version hmatch => ?_,
      h (name, md) (mem_put.mpr (.inl rfl)) written hname⟩
    by_cases hsame : file.1 = name
    · obtain ⟨rfl, -⟩ := Prod.mk.inj (Option.some.inj ((hsame ▸ hmatch).symm.trans hname))
      exact h (name, md) (mem_put.mpr (.inl rfl)) version hname
    · exact h file (mem_put.mpr (.inr ⟨hfile, hsame⟩)) version hmatch
  · rintro ⟨hold, hwritten⟩ file hfile version hmatch
    obtain rfl | ⟨hfile, -⟩ := mem_put.mp hfile
    · obtain ⟨rfl, -⟩ := Prod.mk.inj (Option.some.inj (hmatch.symm.trans hname))
      exact hwritten
    · exact hold file hfile version hmatch

theorem delegator_ne_timestamp (role : String) : delegator role ≠ TIMESTAMP := by
  unfold delegator
  split <;> decide

/-- A file that is no version of the delegator does not change what it lists. -/
theorem authority_put (hname : ∀ version, matchVersioned name ≠ some (version, delegator role))
    (hother : ∀ version, filename (delegator role) version ≠ name) :
    (dir.put name md).authority role = dir.authority role := by
  rw [Directory.authority, newest_put_of_other (delegator_ne_timestamp role) hname,
    get_put_metadata, if_neg (hother _), Directory.authority]

/-- The delegator lists after the close of another role what it listed before. -/
theorem authority_closed_of_ne (hrole : role ≠ ROOT) (version : Nat) :
    (dir.put (filename role version) md).authority role = dir.authority role :=
  authority_put (fun _ hmatch => delegator_ne hrole (eq_of_matchVersioned hmatch).1)
    fun _ hsame => delegator_ne hrole (role_of_filename hsame)

/-- A root that is closed lists the keys from then on, where it is the newest. -/
theorem authority_closed_root (version : Nat) :
    ((dir.put (filename ROOT version) md).put "root.json" md).authority ROOT =
      if dir.newest ROOT ≤ version then md.signed.authority ROOT else dir.authority ROOT := by
  have hself : delegator ROOT = ROOT := by decide
  have hmatch : matchVersioned (filename ROOT version) = some (version, ROOT) :=
    matchVersioned_filename (by decide) (by decide) (by decide) version
  rw [authority_put (by simp [matchVersioned_root]) (fun v => filename_ne_root v),
    Directory.authority, hself, newest_put_own (by decide) hmatch, get_put_metadata]
  by_cases hnewest : dir.newest ROOT ≤ version
  · rw [if_pos hnewest, Nat.max_eq_right hnewest, if_pos rfl]
    rfl
  · have hbehind : filename ROOT (dir.newest ROOT) ≠ filename ROOT version := by
      intro hsame
      have := (filename_injective (by decide) (by decide) hsame).2
      omega
    rw [if_neg hnewest, Nat.max_eq_left (by omega), if_neg hbehind, Directory.authority, hself]

theorem writeMetadata_writes (version : Nat) (md : Metadata) :
    (writeMetadata role version md : Work β Unit).Ends s
      (fun _ s' => s'.dir = if role = ROOT then
          (s.dir.put (filename role version) md).put "root.json" md
        else s.dir.put (filename role version) md)
      (fun _ _ => True) (fun _ => True) := by
  refine .bind (Q := fun _ s' => s' = { s with dir := s.dir.put (filename role version) md })
    (.write trivial rfl) ?_
  rintro - s' rfl
  split
  · exact .write trivial rfl
  · exact .pure rfl

/-- A close that returns has written one file of its role, and its copy where it is the root. -/
theorem close_writes (md : Metadata) :
    (close out role md).Ends s
      (fun _ s' => ∃ file, file.signed = md.signed ∧ s'.dir = if role = ROOT then
          (s.dir.put (filename role (s.repo.version role + 1)) file).put "root.json" file
        else s.dir.put (filename role (s.repo.version role + 1)) file)
      (fun _ _ => True) (fun _ => True) := by
  refine .read_bind ?_
  split
  · exact .raise trivial
  · dsimp only
    split
    · exact .raise trivial
    · refine .bind (writeMetadata_writes _ _) ?_
      rintro - s' hdir
      refine .update ⟨_, ?_, hdir⟩
      rfl

/-- The delegator after the close: a root may be its own. -/
theorem authority_of_close {md : Metadata} {n rest : Nat}
    (h : close out role md s n = .returned () s' rest) :
    s'.dir.authority role = if role = ROOT ∧ s.dir.newest ROOT ≤ s.repo.version ROOT + 1 then
      md.signed.authority ROOT else s.dir.authority role := by
  have hends := (close_writes md : (close out role md).Ends s _ _ _) n
  rw [h] at hends
  obtain ⟨file, hsigned, hdir⟩ := hends
  rw [hdir]
  by_cases hrole : role = ROOT
  · subst hrole
    rw [if_pos rfl, authority_closed_root, hsigned]
    simp only [true_and]
  · rw [if_neg hrole, authority_closed_of_ne hrole, if_neg fun hroot => hrole hroot.1]

end Newest

/-! ## A timestamp that is signed again -/

/-- A signature shows the key that made it and what it is over. -/
def plainScheme : Scheme (String × Payload) where
  sign signer payload := (signer, payload)
  verify key payload signature := signature == (key, payload)
  verify_sign key signer payload := by
    rw [beq_iff_eq]
    exact ⟨fun h => (Prod.mk.inj h).1.symm, fun h => h ▸ rfl⟩

/-- The keys of a keystore that was made anew. -/
def renewedKeys : SignerBackend := ⟨fun _ => ["n1", "n2", "n3", "n4", "n5"], id⟩

/-- A fresh instance over a repository that five keys have initialised. -/
def takenOver (backend : SignerBackend) : Option (Session String) :=
  (System.exec (next textPayloads) [.start fiveKeys, .call .initialise 9, .start backend]
    .empty).bind fun w => w.repo.map fun repo => ⟨repo, w.dir⟩

/-- It signs the timestamp. -/
def signsAgain (backend : SignerBackend) : Option (Session String × Metadata × Session String) :=
  (takenOver backend).bind fun s => (s.opens TIMESTAMP).toOption.bind fun md =>
    match close textPayloads TIMESTAMP md s 9 with
    | .returned _ s' _ => some (s, md, s')
    | _ => none

theorem signsAgain_eq_some {backend : SignerBackend} {s s' : Session String} {md : Metadata}
    (h : signsAgain backend = some (s, md, s')) :
    ∃ rest, close textPayloads TIMESTAMP md s 9 = .returned () s' rest := by
  obtain ⟨s₀, -, h⟩ := Option.bind_eq_some_iff.mp h
  obtain ⟨md₀, -, h⟩ := Option.bind_eq_some_iff.mp h
  split at h
  next rest hreturned =>
    cases h
    exact ⟨rest, hreturned⟩
  · cases h

/-! ## The main result -/

/-- Wherever `close` returns, a client accepts the file exactly where the backend holds enough of
the keys that the delegators list. -/
theorem verifiable_iff {scheme : Scheme σ} {out : Outside β} {role : String} {md : Metadata}
    {s s' : Session β} {n rest : Nat} (h : close out role md s n = .returned () s' rest) :
    Verifiable scheme role s s' ↔ Covers role md.signed s := by
  have hclosed := (close_ends md : (close out role md).Ends s _ _ _) n
  rw [h] at hclosed
  have hauthority := authority_of_close h
  constructor
  · rintro ⟨⟨authority, hcurrent, hsatisfies⟩, hprevious⟩
    refine ⟨⟨authority, hauthority ▸ hcurrent, hclosed.satisfies_iff.mp hsatisfies⟩,
      fun hrole hold => ?_⟩
    obtain ⟨authority', hlisted, hsatisfies'⟩ := hprevious hrole hold
    exact ⟨authority', hlisted, hclosed.satisfies_iff.mp hsatisfies'⟩
  · rintro ⟨⟨authority, hcurrent, hle⟩, hprevious⟩
    refine ⟨⟨authority, hauthority ▸ hcurrent, hclosed.satisfies_iff.mpr hle⟩,
      fun hrole hold => ?_⟩
    obtain ⟨authority', hlisted, hle'⟩ := hprevious hrole hold
    exact ⟨authority', hlisted, hclosed.satisfies_iff.mpr hle'⟩

/-- The keystore is the one of the first ceremony. -/
theorem verifiable_iff_signsAgain :
    ∃ s md s', signsAgain fiveKeys = some (s, md, s') ∧
      (Verifiable plainScheme TIMESTAMP s s' ↔ Covers TIMESTAMP md.signed s) := by
  have hrun : (signsAgain fiveKeys).isSome = true := by decide +kernel
  obtain ⟨⟨s, md, s'⟩, hrun⟩ := Option.isSome_iff_exists.mp hrun
  obtain ⟨rest, hreturned⟩ := signsAgain_eq_some hrun
  exact ⟨s, md, s', hrun, verifiable_iff hreturned⟩

/-- The keystore was made anew: the timestamp is published, and no client accepts it. -/
theorem renewedKeys_not_verifiable :
    ∃ s md s', signsAgain renewedKeys = some (s, md, s') ∧
      ¬ Verifiable plainScheme TIMESTAMP s s' := by
  have hrun : (signsAgain renewedKeys).any (fun run =>
      (run.2.2.dir.authority TIMESTAMP).all fun authority =>
        (authority.held run.1.repo.backend TIMESTAMP).length < authority.threshold) = true := by
    decide +kernel
  obtain ⟨⟨s, md, s'⟩, hrun, hfew⟩ := (Option.any_eq_true _ _).mp hrun
  obtain ⟨rest, hreturned⟩ := signsAgain_eq_some hrun
  refine ⟨s, md, s', hrun, fun hverifiable => ?_⟩
  have hends := (close_ends md : (close textPayloads TIMESTAMP md).Ends s _ _ _) 9
  rw [hreturned] at hends
  obtain ⟨authority, hauthority, hsatisfies⟩ := hverifiable.current
  have hle := hends.satisfies_iff.mp hsatisfies
  rw [hauthority] at hfew
  simp only [Option.all_some, decide_eq_true_eq] at hfew
  omega

end DistPlatform.Core
