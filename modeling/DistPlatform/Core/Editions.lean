import DistPlatform.Core.Atomicity
import DistPlatform.Core.Catalogue

/-!
# Every edition of a catalogue

The files of the application's role are a record of its releases: each call that returns writes
one more version, and what a version lists is what the calls before it have listed. The ceremony
writes the first, which lists nothing.

## Main definitions

* `Catalogue.before` — the calls that a version comes after.
* `Edition` — the file of a version that lists what those calls have listed.
* `Recounts` — the versions of the role, and each call with its own.
-/

namespace DistPlatform.Core

open DistPlatform
open Runs History

/-! ## The versions of a role -/

section Log

variable {role : String} {log newer older : Writes} {file : String × Metadata} {md : Metadata}

/-- The file of a role's last version is its last file. -/
theorem lastOf_of_mem (h : Justified Entered log) (hseen : Seen role)
    (hfile : (filename role md.version, md) ∈ log) (hversion : md.version = lastVersion role log) :
    lastOf role log = some md := by
  induction log with
  | nil => cases hfile
  | cons first log ih =>
    obtain ⟨hroot | ⟨other, hother, hnext, -⟩, hrest⟩ := h
    · obtain ⟨name, content⟩ := first
      obtain rfl : name = "root.json" := hroot
      rw [lastVersion, lastOf_cons_root] at hversion
      rw [lastOf_cons_root]
      obtain heq | hfile := List.mem_cons.mp hfile
      · exact absurd (Prod.mk.inj heq).1 (filename_ne_root _)
      · exact ih hrest hfile hversion
    · rw [lastVersion, lastOf_cons hother] at hversion
      rw [lastOf_cons hother]
      obtain rfl | hfile := List.mem_cons.mp hfile
      · rw [if_pos (role_of_filename hother)]
      · split at hversion
        next heq =>
          -- an older file has an older version
          subst heq
          have hle : md.version ≤ lastVersion role log :=
            version_le_of_seen hrest hseen hfile rfl
          have hnext := hnext hseen
          simp only [Option.map_some, Option.getD_some] at hversion
          omega
        next hne => rw [if_neg hne, ih hrest hfile hversion]

/-- A file of a version that there was before has been there before. -/
theorem mem_of_version_le (h : Justified Entered (newer ++ older)) (hseen : Seen role)
    (hfile : (filename role md.version, md) ∈ newer ++ older)
    (hversion : md.version ≤ lastVersion role older) : (filename role md.version, md) ∈ older := by
  induction newer with
  | nil => exact hfile
  | cons first newer ih =>
    obtain ⟨hentered, hrest⟩ := h
    obtain rfl | hfile := List.mem_cons.mp hfile
    · have hmono := lastVersion_mono_of_seen hrest hseen
      have hnext : md.version = lastVersion role (newer ++ older) + 1 :=
        (entered_of_name hentered rfl).1 hseen
      omega
    · exact ih hrest hfile

/-- No version is left out. -/
theorem exists_version (h : Justified Entered log) (hseen : Seen role) {version : Nat}
    (hpos : 1 ≤ version) (hle : version ≤ lastVersion role log) :
    ∃ md, md.version = version ∧ (filename role version, md) ∈ log := by
  induction log with
  | nil =>
    have hnone : lastVersion role [] = 0 := rfl
    omega
  | cons first log ih =>
    obtain ⟨hentered, hrest⟩ := h
    by_cases hold : version ≤ lastVersion role log
    · obtain ⟨md, hmd, hmem⟩ := ih hrest hold
      exact ⟨md, hmd, List.mem_cons_of_mem _ hmem⟩
    · obtain hroot | ⟨other, hother, hnext, -⟩ := hentered
      · obtain ⟨name, content⟩ := first
        obtain rfl : name = "root.json" := hroot
        rw [lastVersion, lastOf_cons_root] at hle
        exact absurd hle hold
      · rw [lastVersion, lastOf_cons hother] at hle
        split at hle
        next heq =>
          subst heq
          have hnext := hnext hseen
          simp only [Option.map_some, Option.getD_some] at hle
          obtain rfl : version = first.2.version := by omega
          exact ⟨first.2, rfl, List.mem_cons.mpr (.inl (Prod.ext hother.symm rfl))⟩
        next => exact absurd hle hold

/-- What is on disk under the name of a version is a file of that version. -/
theorem mem_of_get {β : Type} {dir : Directory β} (h : Recorded dir) (hrole : role ≠ TIMESTAMP)
    {version : Nat} (hget : dir.metadata.get (filename role version) = some md) :
    md.version = version ∧ (filename role md.version, md) ∈ dir.log := by
  rw [h.stored] at hget
  have hmem : (filename role version, md) ∈ dir.log := Table.mem_of_get hget
  obtain ⟨newer, older, hlog⟩ := List.append_of_mem hmem
  obtain hroot | ⟨other, hother⟩ := (hlog ▸ h.entered).of_append.named
  · exact absurd hroot (filename_ne_root _)
  · obtain rfl := role_of_filename hother
    have hversion : version = md.version := (filename_injective hrole hrole hother).2
    exact ⟨hversion.symm, hversion ▸ hmem⟩

end Log

/-! ## What a call adds -/

section Calls

variable {β : Type} {out : Outside β} {s s' : Session β} {role : String} {roles : List String}

theorem Leaves.version (h : Leaves roles s s') (hrole : role ∉ roles) :
    s'.repo.version role = s.repo.version role := by
  rw [Instance.version, h.versions role hrole, Instance.version]

theorem AppRole.not_mem_top (h : AppRole role) {tops : List String}
    (htops : ∀ top ∈ tops, top.toList.take 4 ≠ "app-".toList) : role ∉ tops :=
  fun hmem => h.ne (htops role hmem) rfl

/-- An edit that always gives new content adds a version. -/
theorem edit_adds {change : Metadata → Except RepositoryError (Option Signed)}
    (hchange : ∀ md, change md ≠ .ok none) :
    (edit out role change).Ends s
      (fun _ s' => s'.repo.version role = s.repo.version role + 1)
      (fun _ _ => True) (fun _ => True) := by
  refine (edit_ends change).mono ?_ (fun _ _ _ => trivial) fun _ h => h
  rintro - s' ⟨md, -, ⟨hnone, -⟩ | ⟨signed, -, hclosed⟩⟩
  · exact absurd hnone (hchange md)
  · exact hclosed.version

theorem onTargets_ne_none {f : Targets → Targets} (md : Metadata) : onTargets f md ≠ .ok none := by
  unfold onTargets
  split
  · intro h
    cases h
  · intro h
    cases h

theorem unchanged_ne_none (md : Metadata) : unchanged md ≠ .ok none := by
  intro h
  cases h

theorem publish_keeps_version (hrole : AppRole role) :
    (publish out).Ends s (fun _ s' => s'.repo.version role = s.repo.version role)
      (fun _ _ => True) (fun _ => True) := by
  refine publish_leaves.mono (fun _ s' h => h.1.version ?_) (fun _ _ h => h) fun _ h => h
  exact hrole.not_mem_top (by decide)

theorem publishTarget_adds (hrole : AppRole role) (path : String) (payload : β)
    (info : ReleaseInfo) :
    (publishTarget out role path payload info).Ends s
      (fun _ s' => s'.repo.version role = s.repo.version role + 1)
      (fun _ _ => True) (fun _ => True) := by
  refine .bind (Q := fun _ s' => s'.repo = s.repo) (.write trivial rfl) ?_
  intro _ s₁ hrepo
  refine .bind (edit_adds onTargets_ne_none) ?_
  intro _ s₂ hadded
  refine (publish_keeps_version hrole).mono (fun _ s₃ hsame => ?_) (fun _ _ h => h) fun _ h => h
  rw [hsame, hadded, hrepo]

/-- `delegatedRole` changes nothing, whatever follows it. -/
theorem delegatedRole_then {α : Type} {appId : String} {f : String → Work β α}
    {Q : α → Session β → Prop}
    (h : ∀ role, appRoleName appId = .ok role →
      (f role).Ends s Q (fun _ _ => True) (fun _ => True)) :
    (delegatedRole appId >>= f).Ends s Q (fun _ _ => True) (fun _ => True) := by
  refine .bind ((delegatedRole_ends appId).mono (fun _ _ h => h) (fun _ _ _ => trivial)
    fun _ h => h) ?_
  rintro role s' ⟨rfl, hrole, -⟩
  exact h role hrole

/-- A call that lists adds one version to the role of its application. -/
theorem lists_adds {call : Call β} (hcall : call.lists = true) {appId : String}
    (happ : call.appId = some appId) (hrole : appRoleName appId = .ok role) :
    (call.perform out).Ends s (fun _ s' => s'.repo.version role = s.repo.version role + 1)
      (fun _ _ => True) (fun _ => True) := by
  have hadds {name : String} (hname : appRoleName appId = .ok name) (path : String) (payload : β)
      (info : ReleaseInfo) : (publishTarget out name path payload info).Ends s
      (fun _ s' => s'.repo.version role = s.repo.version role + 1)
      (fun _ _ => True) (fun _ => True) := by
    obtain rfl := Except.ok.inj (hrole.symm.trans hname)
    exact publishTarget_adds ⟨appId, hrole⟩ path payload info
  cases call with
  | initialise | addApp => cases hcall
  | addRelease key payload info =>
    obtain rfl := Option.some.inj happ
    refine .bind (.lift_bind (fun _ _ => trivial) fun _ _ => ?_) fun _ _ h => .pure h
    exact delegatedRole_then fun name hname => .bind (hadds hname _ _ _) fun _ _ h => .pure h
  | setCurrent key =>
    obtain rfl := Option.some.inj happ
    refine .bind (delegatedRole_then fun name hname => ?_) fun _ _ h => .pure h
    refine .read_bind (.lift_bind (fun _ _ => trivial) fun md _ => ?_)
    split
    · refine .lift_bind (fun _ _ => trivial) fun _ _ => ?_
      refine .lift_bind (fun _ _ => trivial) fun _ _ => ?_
      exact .bind (hadds hname _ _ _) fun _ _ h => .pure h
    · exact .raise trivial

/-- So does the ceremony that delegates to it. -/
theorem addApp_adds {appId : String} {critical : Bool} (hrole : appRoleName appId = .ok role) :
    ((Call.addApp appId critical).perform out).Ends s
      (fun _ s' => s'.repo.version role = s.repo.version role + 1)
      (fun _ _ => True) (fun _ => True) := by
  have happ : AppRole role := ⟨appId, hrole⟩
  refine .bind (.lift_bind (fun _ _ => trivial) fun policy hpolicy => ?_) fun _ _ h => .pure h
  obtain ⟨hname, -⟩ := appRolePolicy_eq_ok (Fallible.mapError_eq_ok.mp hpolicy)
  obtain rfl := Except.ok.inj (hrole.symm.trans hname)
  refine .update_bind (.read_bind (.lift_bind (fun _ _ => trivial) fun _ _ => ?_))
  refine .bind (edit_leaves _) ?_
  rintro - s₁ ⟨hleaves, -⟩
  refine .update_bind (.bind (edit_adds unchanged_ne_none) ?_)
  intro _ s₂ hadded
  refine .bind (publish_keeps_version happ) fun _ s₃ hsame => .pure ?_
  rw [hsame, hadded]
  exact congrArg (· + 1) (hleaves.version (happ.not_mem_top (by decide)))

end Calls

/-! ## Every edition -/

section Editions

variable {β : Type} (out : Outside β)

/-- The calls that the version comes after: it is written by the next one. -/
def Catalogue.before (d : Catalogue β) (version : Nat) : List (Call β) :=
  d.calls.drop (d.calls.length + 1 - version)

/-- The file lists what the calls have listed, and delegates nothing. -/
def Edition (calls : List (Call β)) (md : Metadata) : Prop :=
  ∃ targets, md.signed = .targets ⟨targets, none⟩ ∧ ∀ path, targets.get path =
    (listedAt out path calls).map fun row => targetFile out row.1 row.2

/-- One version for the ceremony and for each call, and each one an edition. -/
structure Recounts (role : String) (d : Catalogue β) : Prop where
  count : lastVersion role d.session.dir.log = d.calls.length + 1
  editions : ∀ md, (filename role md.version, md) ∈ d.session.dir.log →
    Edition out (d.before md.version) md

variable {out} {backend : SignerBackend} {appId role : String} {d : Catalogue β}
  {s' : Session β}

/-- The last file is the edition of all calls. -/
theorem Serving.edition (h : Serving out backend appId role d) {md : Metadata}
    (hlast : lastOf role d.session.dir.log = some md) : Edition out d.calls md := by
  obtain ⟨targets, hheld, hlisting⟩ := h.listing
  obtain ⟨md', hlast', hsigned⟩ := Option.map_eq_some_iff.mp hheld
  obtain rfl := Option.some.inj (hlast.symm.trans hlast')
  exact ⟨targets, hsigned, hlisting⟩

/-- The file of the last version is an edition. -/
theorem Serving.edition_of_mem (h : Serving out backend appId role d) (hseen : Seen role)
    {md : Metadata} (hfile : (filename role md.version, md) ∈ d.session.dir.log)
    (hversion : md.version = lastVersion role d.session.dir.log) : Edition out d.calls md :=
  h.edition (lastOf_of_mem h.informed.recorded.entered hseen hfile hversion)

theorem recounts_opened (hlists : ListsReported out.tuf)
    (hrole : appRoleName appId = .ok role) (hseen : Seen role) {critical : Bool} {budget : Nat}
    {s : Session β} (h : opened out backend appId critical budget = some s)
    (hserving : Serving out backend appId role ⟨s, []⟩) : Recounts out role ⟨s, []⟩ := by
  have happ : AppRole role := ⟨appId, hrole⟩
  obtain ⟨repo, s₁, policy, rest, rest', -, -, -, -, hadded, -, -, hperformed, -, -⟩ :=
    opened_performed hlists h
  have hfirst : s₁.repo.version role = 0 := by
    have hnone : held s₁.dir role = none :=
      (hperformed.content role ⟨hseen, .inr happ⟩).trans (if_neg (happ.ne (by decide)))
    rw [hperformed.informed.versions role hseen, lastVersion, Option.map_eq_none_iff.mp hnone]
    rfl
  have hadds : ((Call.addApp appId critical).perform out).Ends s₁ _ _ _ := addApp_adds hrole
  have hadds := hadds budget
  rw [hadded] at hadds
  have hcount : lastVersion role s.dir.log = 1 := by
    rw [← hserving.informed.versions role hseen]
    exact hadds.trans (congrArg (· + 1) hfirst)
  refine ⟨hcount, fun md hfile => ?_⟩
  have hentered := hserving.informed.recorded.entered
  have hle : md.version ≤ 1 := hcount ▸ version_le_of_seen hentered hseen hfile rfl
  have hpos : 1 ≤ md.version := by
    obtain ⟨newer, older, hlog⟩ := List.append_of_mem hfile
    rw [hlog] at hentered
    have hnext : md.version = lastVersion role older + 1 :=
      (entered_of_name hentered.of_append rfl).1 hseen
    omega
  have hedition := hserving.edition_of_mem hseen hfile (by rw [hcount]; omega)
  simpa [Catalogue.before] using hedition

/-- One more call, one more edition. -/
theorem Recounts.returns (h : Recounts out role d) (hserving : Serving out backend appId role d)
    (hrole : appRoleName appId = .ok role) (hseen : Seen role) {call : Call β}
    (hcall : call.lists = true) (happ : call.appId = some appId) {budget rest : Nat}
    (hreturned : call.perform out d.session budget = .returned () s' rest)
    (hserving' : Serving out backend appId role ⟨s', call :: d.calls⟩)
    (hsince : d.session.dir.log <:+ s'.dir.log) : Recounts out role ⟨s', call :: d.calls⟩ := by
  have hadds : (call.perform out).Ends d.session _ _ _ := lists_adds hcall happ hrole
  have hadds := hadds budget
  rw [hreturned] at hadds
  have hcount : lastVersion role s'.dir.log = d.calls.length + 1 + 1 := by
    rw [← hserving'.informed.versions role hseen, ← h.count,
      ← hserving.informed.versions role hseen]
    exact hadds
  refine ⟨hcount, fun md hfile => ?_⟩
  have hentered : Justified Entered s'.dir.log := hserving'.informed.recorded.entered
  have hle : md.version ≤ lastVersion role s'.dir.log := version_le_of_seen hentered hseen hfile rfl
  by_cases hnew : md.version = lastVersion role s'.dir.log
  · have hedition := hserving'.edition_of_mem hseen hfile hnew
    rw [hcount] at hnew
    simpa [Catalogue.before, hnew] using hedition
  · obtain ⟨newer, hlog⟩ := hsince
    rw [← hlog] at hentered
    have hold : md.version ≤ d.calls.length + 1 := by omega
    have hmem : (filename role md.version, md) ∈ newer ++ d.session.dir.log := hlog ▸ hfile
    have hedition := h.editions md (mem_of_version_le hentered hseen hmem (h.count ▸ hold))
    have hdrop : Catalogue.before ⟨s', call :: d.calls⟩ md.version = d.before md.version := by
      have hshift : d.calls.length + 1 + 1 - md.version = d.calls.length + 1 - md.version + 1 := by
        omega
      simp only [Catalogue.before, List.length_cons, hshift, List.drop_succ_cons]
    rwa [hdrop]

theorem recounts_next (h : Recounts out role d) (hserving : Serving out backend appId role d)
    (hlists : ListsReported out.tuf) (hrefuses : RefusesRollback out.tuf)
    (hrole : appRoleName appId = .ok role) (hseen : Seen role) {turn : Turn β} {d' : Catalogue β}
    (hnext : d.next out turn = some d') : Recounts out role d' := by
  cases turn with
  | call call budget =>
    dsimp only [Catalogue.next] at hnext
    split at hnext
    next hcall =>
      split at hnext
      next s' rest hreturned =>
        obtain rfl := Option.some.inj hnext
        obtain ⟨hserving', hchecked⟩ := hserving.returns hlists hrole hseen hcall hreturned
        have hperformed := perform_performed (R := fun _ => True) (K := fun _ => True)
          hserving.informed hlists call (.inl fun _ _ => trivial) trivial
          (fun _ _ _ _ _ _ => trivial) budget
        rw [hreturned] at hperformed
        obtain ⟨_, -, hperformed, -⟩ := hperformed
        have happ : call.appId = some appId := by
          cases call with
          | initialise | addApp => cases hcall
          | addRelease | setCurrent => exact congrArg some (appRoleName_injective hchecked.1 hrole)
        exact h.returns hserving hrole hseen hcall happ hreturned hserving' hperformed.since
      next s' rest hraised =>
        obtain rfl := Option.some.inj hnext
        have hsame := hserving.raises hlists hrefuses hseen hcall budget
        rw [hraised] at hsame
        obtain rfl := hsame
        exact h
      · cases hnext
    · cases hnext
  | restart =>
    obtain ⟨repo, -, rfl⟩ := Option.map_eq_some_iff.mp hnext
    exact ⟨h.count, h.editions⟩

theorem recounts_of_reachable (hlists : ListsReported out.tuf) (hrefuses : RefusesRollback out.tuf)
    (hdistinct : backend.Distinct) (hrole : appRoleName appId = .ok role) (hseen : Seen role)
    (h : (catalogue out backend appId).Reachable d) : Recounts out role d := by
  induction h with
  | @start d hstart =>
    obtain ⟨⟨critical, budget, hopened⟩, hcalls⟩ := hstart
    obtain ⟨s, calls⟩ := d
    obtain rfl : calls = [] := hcalls
    exact recounts_opened hlists hrole hseen hopened
      (serving_opened hlists hdistinct hrole hseen hopened)
  | step hreach hnext ih =>
    obtain ⟨hserving, -⟩ := serving_of_reachable hlists hrefuses hdistinct hrole hseen hreach
    exact recounts_next ih hserving hlists hrefuses hrole hseen hnext

/-- Any version on disk lists what the calls had listed when it was written. -/
theorem edition_of_get (hlists : ListsReported out.tuf) (hrefuses : RefusesRollback out.tuf)
    (hdistinct : backend.Distinct) (hrole : appRoleName appId = .ok role) (hseen : Seen role)
    (h : (catalogue out backend appId).Reachable d) {version : Nat} {md : Metadata}
    (hmd : d.session.dir.metadata.get (filename role version) = some md) :
    ∃ calls, calls <:+ d.calls ∧ Edition out calls md := by
  have hrecounts := recounts_of_reachable hlists hrefuses hdistinct hrole hseen h
  obtain ⟨hserving, -⟩ := serving_of_reachable hlists hrefuses hdistinct hrole hseen h
  obtain ⟨-, hmem⟩ :=
    mem_of_get hserving.informed.recorded (AppRole.ne ⟨appId, hrole⟩ (by decide)) hmd
  exact ⟨d.before md.version, List.drop_suffix _ _, hrecounts.editions md hmem⟩

/-! ## The result -/

/-- The application's metadata is a record of its releases: there is one version for the ceremony
and one for each call that has returned, across every restart and every call that raised; and each
of them is on disk still, and lists what the calls before it have listed last. -/
theorem version_on_disk (hlists : ListsReported out.tuf) (hrefuses : RefusesRollback out.tuf)
    (hdistinct : backend.Distinct) (hrole : appRoleName appId = .ok role) (hseen : Seen role)
    (h : (catalogue out backend appId).Reachable d) (version : Nat) :
    ((d.session.dir.metadata.get (filename role version)).isSome ↔
        1 ≤ version ∧ version ≤ d.calls.length + 1) ∧
      ∀ md, d.session.dir.metadata.get (filename role version) = some md →
        md.version = version ∧ Edition out (d.before version) md := by
  have hne : role ≠ TIMESTAMP := AppRole.ne ⟨appId, hrole⟩ (by decide)
  have hrecounts := recounts_of_reachable hlists hrefuses hdistinct hrole hseen h
  obtain ⟨hserving, -⟩ := serving_of_reachable hlists hrefuses hdistinct hrole hseen h
  have hrecorded := hserving.informed.recorded
  have hentered := hrecorded.entered
  refine ⟨⟨fun hsome => ?_, fun ⟨hpos, hle⟩ => ?_⟩, fun md hget => ?_⟩
  · obtain ⟨md, hget⟩ := Option.isSome_iff_exists.mp hsome
    obtain ⟨rfl, hmem⟩ := mem_of_get hrecorded hne hget
    refine ⟨?_, hrecounts.count ▸ version_le_of_seen hentered hseen hmem rfl⟩
    obtain ⟨newer, older, hlog⟩ := List.append_of_mem hmem
    have hnext : md.version = lastVersion role older + 1 :=
      (entered_of_name (hlog ▸ hentered).of_append rfl).1 hseen
    omega
  · obtain ⟨md, rfl, hmem⟩ := exists_version hentered hseen hpos (hrecounts.count ▸ hle)
    obtain ⟨newer, older, hlog⟩ := List.append_of_mem hmem
    have hlookup := lookup_of_seen (hlog ▸ hentered) hseen hne
    rw [hrecorded.stored, hlog, hlookup]
    rfl
  · obtain ⟨hversion, hmem⟩ := mem_of_get hrecorded hne hget
    exact ⟨hversion, hversion ▸ hrecounts.editions md hmem⟩

end Editions

/-- A release is made current before it is there, which raises; then it is added, and a fresh
instance makes it current. -/
def twoReleases : Option (Catalogue String) := do
  let key := editorKey "editor" editor_safe
  let s ← opened textPayloads fiveKeys "editor" false 9
  System.exec (Catalogue.next textPayloads)
    [.call (.setCurrent key) 9, .call (.addRelease key "editor 1.0" editorInfo) 9, .restart,
      .call (.setCurrent key) 9] ⟨s, []⟩

theorem version_on_disk_editor : ∃ d, twoReleases = some d ∧ ∀ version,
    (d.session.dir.metadata.get (filename "app-editor" version)).isSome ↔
      1 ≤ version ∧ version ≤ 3 := by
  have hrun : twoReleases.map (fun d => d.calls.length) = some 2 := by
    decide +kernel
  obtain ⟨d, hd, hcalls⟩ := Option.map_eq_some_iff.mp hrun
  have hsteps := hd
  unfold twoReleases at hsteps
  obtain ⟨s, hopened, hexec⟩ := Option.bind_eq_some_iff.mp hsteps
  have hreach : (catalogue textPayloads fiveKeys "editor").Reachable d :=
    System.reachable_of_exec (fun _ _ _ h => h) (.start ⟨⟨false, 9, hopened⟩, rfl⟩) hexec
  have hdistinct : fiveKeys.Distinct := by
    intro role
    dsimp only [fiveKeys]
    decide
  have hrole : appRoleName "editor" = .ok "app-editor" := by decide
  refine ⟨d, hd, fun version => ?_⟩
  have hiff := (version_on_disk listsReported_pythonTuf refusesRollback_pythonTuf hdistinct
    hrole (by decide) hreach version).1
  rwa [hcalls] at hiff

end DistPlatform.Core
