import DistPlatform.Core.Continuity
import DistPlatform.Core.PublicationRuns

/-!
# A fresh instance

What a scan finds of a directory is what its writes say, for every role that is seen; so a
fresh instance knows whatever the one before knew, wherever that one was killed.

## Main definitions

* `Recorded.informed_new` — the instance that is built over a directory.
* `Restartable` — what holds between any two operations.
-/

namespace DistPlatform.Core

open DistPlatform
open Runs History

/-! ## The scan -/

section Scan

variable {β : Type} {dir : Directory β} {role : String}

/-- The pattern does not read a name with a line feed in its role. -/
theorem matchVersioned_of_unseen (hne : role ≠ TIMESTAMP) (hunseen : ¬ Seen role) (version : Nat) :
    matchVersioned (filename role version) = none := by
  have hline : '\n' ∈ role.toList := not_not.mp hunseen
  simp only [matchVersioned, takeWhile_filename hne, dropWhile_filename hne, List.length_append,
    Nat.add_sub_cancel, List.take_left']
  simp [hline]

theorem Recorded.mem_log (h : Recorded dir) {file : String × Metadata}
    (hfile : file ∈ dir.metadata) : file ∈ dir.log := by
  have hget := Table.get_of_mem h.distinct hfile
  rw [h.stored] at hget
  exact Table.mem_of_get hget

theorem Recorded.entered_of_mem (h : Recorded dir) {file : String × Metadata}
    (hfile : file ∈ dir.log) : ∃ older, Entered file older := by
  obtain ⟨newer, older, hsplit⟩ := List.append_of_mem hfile
  have hentered := h.entered
  rw [hsplit] at hentered
  exact ⟨older, hentered.of_append⟩

/-- What the pattern reads is a file of a role that is seen. -/
theorem Recorded.matchVersioned_eq (h : Recorded dir) {file : String × Metadata}
    (hfile : file ∈ dir.metadata) {version : Nat}
    (hmatch : matchVersioned file.1 = some (version, role)) :
    role ≠ TIMESTAMP ∧ Seen role ∧ file.1 = filename role file.2.version ∧
      file.2.version = version := by
  obtain ⟨_, hroot | ⟨other, hname, -, hadmissible⟩⟩ := h.entered_of_mem (h.mem_log hfile)
  · rw [hroot, matchVersioned_root] at hmatch
    cases hmatch
  · by_cases hne : other = TIMESTAMP
    · have hname : file.1 = "timestamp.json" := by rw [hname, hne]; rfl
      rw [hname, matchVersioned_timestamp] at hmatch
      cases hmatch
    · by_cases hseen : Seen other
      · rw [hname, matchVersioned_filename hne hadmissible.fits.ne_empty hseen] at hmatch
        obtain ⟨rfl, rfl⟩ := Prod.mk.inj (Option.some.inj hmatch)
        exact ⟨hne, hseen, hname, rfl⟩
      · rw [hname, matchVersioned_of_unseen hne hseen] at hmatch
        cases hmatch

/-- The scan knows the last version of every role that is seen. -/
theorem Recorded.known_scan (h : Recorded dir) (hseen : Seen role) :
    known (scanVersions dir) role = lastVersion role dir.log := by
  have hnamed := h.entered.mono fun _ _ => Entered.named
  by_cases hne : role = TIMESTAMP
  · subst hne
    obtain ⟨hzero, hnone⟩ | ⟨file, hfile, hname, hknown⟩ := @scan_timestamp dir.metadata []
      fun file hfile version hmatch => (h.matchVersioned_eq hfile hmatch).1 rfl
    · cases hlast : lastOf TIMESTAMP dir.log with
      | none =>
        rw [scanVersions, hzero, lastVersion, hlast]
        rfl
      | some md =>
        have hlookup := lookup_lastOf hnamed hlast
        rw [← h.stored] at hlookup
        exact absurd rfl (hnone _ (Table.mem_of_get hlookup))
    · have hmem := h.mem_log hfile
      have hof : fileOf TIMESTAMP file = some file.2 := if_pos hname
      obtain ⟨md, hlast⟩ := Option.isSome_iff_exists.mp
        (latest_isSome hmem (by rw [hof]; rfl) : (lastOf TIMESTAMP dir.log).isSome)
      have hlookup := lookup_lastOf hnamed hlast
      have hget := Table.get_of_mem h.distinct hfile
      rw [h.stored, hname] at hget
      obtain rfl := Option.some.inj (hget.symm.trans hlookup)
      rw [scanVersions, hknown, lastVersion_of_lastOf hlast]
  · refine Nat.le_antisymm ?_ ?_
    · obtain hzero | ⟨file, hfile, hmatch⟩ := @scan_lower dir.metadata [] role hne
      · rw [scanVersions, hzero]
        exact Nat.zero_le _
      · obtain ⟨-, -, hname, hversion⟩ := h.matchVersioned_eq hfile hmatch
        rw [scanVersions, ← hversion]
        exact version_le_of_seen h.entered hseen (h.mem_log hfile) hname
    · cases hlast : lastOf role dir.log with
      | none => simp [lastVersion, hlast]
      | some md =>
        obtain ⟨_, hadmissible⟩ := Admissible.of_lastOf h.entered hlast
        have hlookup := lookup_lastOf hnamed hlast
        rw [← h.stored] at hlookup
        rw [lastVersion_of_lastOf hlast]
        exact scan_upper hne (Table.mem_of_get hlookup)
          (matchVersioned_filename hne hadmissible.fits.ne_empty hseen _)

end Scan

/-! ## The policies -/

theorem appRolePolicy_of_appRole {role : String} (happ : AppRole role) :
    ∃ policy, appRolePolicy (if Text.startsWith role APP_ROLE_PREFIX then
      String.ofList (role.toList.drop APP_ROLE_PREFIX.length) else role) false = .ok policy ∧
        policy.threshold = 1 := by
  obtain ⟨appId, hname⟩ := happ
  obtain ⟨-, rfl⟩ := appRoleName_eq_ok.mp hname
  have hstarts : Text.startsWith (APP_ROLE_PREFIX ++ appId) APP_ROLE_PREFIX = true := by
    rw [Text.startsWith_iff, String.toList_append]
    exact List.prefix_append _ _
  have hrest : String.ofList ((APP_ROLE_PREFIX ++ appId).toList.drop APP_ROLE_PREFIX.length) =
      appId := by
    rw [String.toList_append, ← String.length_toList, List.drop_left, String.ofList_toList]
  rw [if_pos hstarts, hrest, appRolePolicy, hname]
  exact ⟨_, rfl, rfl⟩

/-- A policy for every role that is delegated to, besides those there are. -/
theorem scanPolicies_eq_ok {policies : Table String RolePolicy} {names : List String}
    (happ : ∀ name ∈ names, AppRole name)
    (hone : ∀ name ∈ names, ∀ policy, policies.get name = some policy → policy.threshold = 1) :
    ∃ policies', scanPolicies policies names = .ok policies' ∧
      (∀ name policy, policies.get name = some policy → policies'.get name = some policy) ∧
      ∀ name ∈ names, ∃ policy, policies'.get name = some policy ∧ policy.threshold = 1 := by
  induction names generalizing policies with
  | nil => exact ⟨policies, rfl, fun _ _ h => h, fun _ h => absurd h List.not_mem_nil⟩
  | cons name names ih =>
    obtain ⟨policy, hpolicy, hthreshold⟩ := appRolePolicy_of_appRole (happ name List.mem_cons_self)
    let next := if (policies.get name).isSome then policies else policies.put name policy
    have hkeeps (other : String) (old : RolePolicy) (hold : policies.get other = some old) :
        next.get other = some old := by
      by_cases hsome : (policies.get name).isSome
      · rwa [show next = policies from if_pos hsome]
      · rw [show next = policies.put name policy from if_neg hsome, Table.get_put, if_neg]
        · exact hold
        · rintro rfl
          exact hsome (by rw [hold]; rfl)
    have hown : ∃ own, next.get name = some own ∧ own.threshold = 1 := by
      by_cases hsome : (policies.get name).isSome
      · obtain ⟨old, hold⟩ := Option.isSome_iff_exists.mp hsome
        exact ⟨old, hkeeps name old hold, hone name List.mem_cons_self old hold⟩
      · rw [show next = policies.put name policy from if_neg hsome]
        exact ⟨policy, Table.get_put_self _ _ _, hthreshold⟩
    have hone' (other : String) (hother : other ∈ names) (old : RolePolicy)
        (hold : next.get other = some old) : old.threshold = 1 := by
      by_cases heq : other = name
      · obtain ⟨own, hget, hthreshold'⟩ := hown
        exact Option.some.inj (hget.symm.trans (heq ▸ hold)) ▸ hthreshold'
      · refine hone other (List.mem_cons_of_mem _ hother) old ?_
        by_cases hsome : (policies.get name).isSome
        · rwa [show next = policies from if_pos hsome] at hold
        · rwa [show next = policies.put name policy from if_neg hsome, Table.get_put,
            if_neg heq] at hold
    obtain ⟨policies', hscan, hold, hnew⟩ :=
      ih (fun other hother => happ other (List.mem_cons_of_mem _ hother)) hone'
    refine ⟨policies', ?_, fun other old h => hold other old (hkeeps other old h), ?_⟩
    · unfold scanPolicies
      dsimp only
      rw [hpolicy]
      exact hscan
    · intro other hother
      obtain rfl | hother := List.mem_cons.mp hother
      · obtain ⟨own, hget, hthreshold'⟩ := hown
        exact ⟨own, hold _ _ hget, hthreshold'⟩
      · exact hnew other hother

/-! ## The fresh instance -/

section Fresh

variable {β : Type} {out : Outside β} {dir : Directory β}

theorem topPolicies_get : ∀ row ∈ TOP_LEVEL_POLICIES,
    Table.get TOP_LEVEL_POLICIES row.1 = some row.2 := by decide

theorem topPolicies_none {role : String} (happ : AppRole role) :
    Table.get TOP_LEVEL_POLICIES role = none := by
  have hne : ∀ row ∈ TOP_LEVEL_POLICIES, row.1.toList.take 4 ≠ "app-".toList := by decide
  rw [Table.get, List.lookup_eq_none_iff]
  intro row hrow
  exact bne_iff_ne.mpr (happ.ne (hne row hrow))

/-- The constructor succeeds, and learns everything an instance has to know. -/
theorem Recorded.informed_new (h : Recorded dir) (backend : SignerBackend) :
    ∃ repo, Instance.new backend dir = .ok repo ∧ repo.backend = backend ∧
      Informed (⟨repo, dir⟩ : Session β) := by
  let scanned : Instance := ⟨backend, TOP_LEVEL_POLICIES, scanVersions dir, []⟩
  have hreads : Reads (⟨scanned, dir⟩ : Session β) :=
    ⟨h, fun role hseen => h.known_scan hseen⟩
  have hversion : scanned.version TARGETS = lastVersion TARGETS dir.log :=
    hreads.versions TARGETS seen_targets
  have hempty (hnone : delegated dir.log = []) : Informed (⟨scanned, dir⟩ : Session β) :=
    ⟨hreads, fun role => by rw [hnone], topPolicies_get, fun _ hmem => absurd hmem List.not_mem_nil⟩
  obtain ⟨md, hopen, hlast⟩ := hreads.openRole seen_targets
  obtain ⟨⟨⟨files, delegations⟩, htargets⟩, happ, -⟩ := hreads.open_targets (.inl rfl) hopen
  obtain ⟨hnone, -⟩ | hlast := hlast
  · refine ⟨scanned, if_pos ?_, rfl, hempty (delegated_of_none hnone)⟩
    change scanned.version TARGETS = 0
    rw [hversion, lastVersion, hnone]
    rfl
  · have hpos := lastVersion_pos_of_seen h.entered seen_targets hlast
    have hne : scanned.version TARGETS ≠ 0 := by
      rw [hversion, lastVersion_of_lastOf hlast]
      omega
    have hdelegated := delegated_of_lastOf hlast
    unfold Instance.new
    dsimp only
    rw [if_neg hne, hopen, Fallible.bind_ok, htargets]
    rw [htargets] at happ hdelegated
    cases delegations with
    | none => exact ⟨scanned, rfl, rfl, hempty hdelegated⟩
    | some delegations =>
      obtain ⟨policies, hscan, hkeeps, happs⟩ := scanPolicies_eq_ok happ
        fun name hname policy hpolicy => by
          cases (topPolicies_none (happ name hname)).symm.trans hpolicy
      refine ⟨{ scanned with policies, appRoles := _ }, ?_, rfl, ⟨h, hreads.versions⟩,
        fun role => by rw [hdelegated]; rfl,
        fun row hrow => hkeeps _ _ (topPolicies_get row hrow), happs⟩
      dsimp only
      change scanPolicies TOP_LEVEL_POLICIES (delegations.roles.map (·.1)) = _ at hscan
      rw [hscan]
      rfl

end Fresh

/-! ## Every run -/

section Runs

variable {β : Type} {out : Outside β}

/-- What holds between any two operations. -/
structure Restartable (w : World β) : Prop where
  recorded : Recorded w.dir
  informed : ∀ repo, w.repo = some repo → Informed (⟨repo, w.dir⟩ : Session β)

theorem recorded_empty : Recorded (.empty : Directory β) := ⟨List.nodup_nil, fun _ => rfl, trivial⟩

/-- The directory after an operation, however it ends, and the instance, unless it was killed. -/
theorem perform_restartable {s : Session β} (hs : Informed s) (hlists : ListsReported out.tuf)
    (call : Call β) (budget : Nat) : Restartable (afterCall (call.perform out s budget)) := by
  have hend := perform_performed (R := Informed) (K := Recorded) hs hlists call
    (.inl fun _ h => h) hs.recorded (fun _ _ _ _ _ h => h.recorded) budget
  cases hresult : call.perform out s budget with
  | returned _ s' _ =>
    rw [hresult] at hend
    obtain ⟨e, -, hperformed, -⟩ := hend
    exact ⟨hperformed.informed.recorded, fun _ heq => Option.some.inj heq ▸ hperformed.informed⟩
  | raised _ s' _ =>
    rw [hresult] at hend
    exact ⟨hend.recorded, fun _ heq => Option.some.inj heq ▸ hend⟩
  | killed s' =>
    rw [hresult] at hend
    exact ⟨hend, nofun⟩

theorem restartable (hlists : ListsReported out.tuf) {w : World β}
    (hw : (system out).Reachable w) : Restartable w := by
  induction hw with
  | start h0 =>
    obtain rfl := h0
    exact ⟨recorded_empty, nofun⟩
  | @step w action w' _ hstep ih =>
    cases action with
    | start backend =>
      obtain rfl := Option.some.inj hstep
      refine ⟨ih.recorded, fun repo hrepo => ?_⟩
      obtain ⟨fresh, hnew, -, hinformed⟩ := ih.recorded.informed_new backend
      rw [hnew] at hrepo
      exact Option.some.inj hrepo ▸ hinformed
    | call call budget =>
      obtain ⟨repo, hrepo, rfl⟩ := Option.map_eq_some_iff.mp hstep
      exact perform_restartable (ih.informed repo hrepo) hlists call budget

end Runs

end DistPlatform.Core
