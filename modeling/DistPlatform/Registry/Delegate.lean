import DistPlatform.Core.FileFormat
import DistPlatform.Core.Retry
import DistPlatform.Registry.Store

/-!
# Activating a source (`dist_registry.delegate`)

The command takes the targets metadata with the highest version in the directory, and activates
a source whose role is delegated there. Clients follow the timestamp, and see the targets that
were there when it was written; so the two agree once a timestamp has followed the delegation.

## Main definitions

* `currentTargets`, `delegatedRoles`, `main` — the command.
* `Listing` — the files of a repository's directory, as they are read.
* `Visible`, `Timestamped` — a delegation that clients see, and one that a timestamp followed.
-/

namespace DistPlatform.Registry

open DistPlatform
open Runs
open DistPlatform.Core (Directory Metadata Recorded Signed Targets Writes TARGETS SNAPSHOT TIMESTAMP AppRole
  filename lastOf lastVersion delegated announced appRoleName)

/-! ## The command -/

inductive DelegateError
  | DelegationMissingError (message : String)
  | ValueError (error : Core.ValueError)
  | AttributeError
  | CheckViolation
  deriving DecidableEq, Repr

/-- A directory's files by name, as JSON or with the error of reading them so. -/
abbrev Files := List (String × Except String Json)

/-- `glob("*.targets.json")`. -/
def isVersioned (name : String) : Bool := ".targets.json".toList.isSuffixOf name.toList

/-- `int` of what stands before the first dot, where `isdigit` says that it is a number. -/
def headVersion (name : String) : Option Nat :=
  let head := name.toList.takeWhile (· ≠ '.')
  if head ≠ [] ∧ head.all Char.isDigit then some (Nat.ofDigitChars 10 head 0) else none

/-- The order of the pairs of a version and a path. -/
def later (a b : Nat × String) : Nat × String :=
  if a.1 < b.1 ∨ a.1 = b.1 ∧ a.2 < b.2 then b else a

/-- `current_targets`. -/
def currentTargets (metadataDir : String) (names : List String) : Except DelegateError String :=
  if "targets.json" ∈ names then .ok "targets.json"
  else
    match names.filterMap fun name =>
      if isVersioned name then (headVersion name).map fun version => (version, name) else none with
    | [] => .error (.DelegationMissingError ("no targets metadata in " ++ metadataDir))
    | first :: rest => .ok (rest.foldl later first).2

/-- `delegated_roles`. -/
def delegatedRoles (targetsJson : String) :
    Except String Json → Except DelegateError (List String)
  | .error exc => .error (.DelegationMissingError ("cannot read " ++ targetsJson ++ ": " ++ exc))
  | .ok (.obj document) =>
    match ((document.lookup "signed").bind (Json.get? "delegations")).bind
        (Json.get? "roles") with
    | some (.obj roles) => .ok (roles.map (·.1))
    | some (.arr roles) => .ok (roles.filterMap (Json.getStr? "name"))
    | _ => .ok []
  | .ok _ => .error .AttributeError

/-- What the command prints and returns. -/
structure Exit where
  code : Nat
  printed : String
  deriving DecidableEq, Repr

variable {π ρ : Type}

/-- `store.mark_delegated`, and what the command says of it. -/
def recordDelegation (store : Store π ρ) (appId : String) :
    Except DelegateError (Exit × Store π ρ) :=
  match store.markDelegated appId with
  | .ok store' =>
    let project := ((store'.sources.find? (·.appId == appId)).map (·.project)).getD ""
    .ok (⟨0, appId ++ " is active; the worker will poll " ++ project⟩, store')
  | .error (.StoreError exc) => .ok (⟨1, "error: " ++ exc⟩, store)
  | .error _ => .error .CheckViolation

/-- The guarded part of `main`: the chosen file, and the roles it delegates to. -/
def readDelegations (metadataDir : String) (files : Files) :
    Except DelegateError (String × List String) := do
  let name ← currentTargets metadataDir (files.map Prod.fst)
  let targetsJson := metadataDir ++ "/" ++ name
  let roles ← delegatedRoles targetsJson
    ((files.lookup name).getD (.error "No such file or directory"))
  return (targetsJson, roles)

/-- `main`, over the directory `repo / "metadata"`. -/
def main (metadataDir : String) (files : Files) (appId : String) (store : Store π ρ) :
    Except DelegateError (Exit × Store π ρ) := do
  let role ← (appRoleName appId).mapError .ValueError
  match readDelegations metadataDir files with
  | .error (.DelegationMissingError exc) => .ok (⟨2, "error: " ++ exc⟩, store)
  | .error e => .error e
  | .ok (targetsJson, roles) =>
    if role ∈ roles then recordDelegation store appId
    else .ok (⟨1, "error: " ++ targetsJson ++ " does not delegate " ++ Text.quoted role ++ ".\n" ++
      "       Run the signing ceremony for " ++ Text.quoted appId ++ " first — this command " ++
      "only records a delegation that already exists."⟩, store)

/-- The command activates the source: it ends with code 0. -/
def Activates (metadataDir : String) (files : Files) (appId : String) (store : Store π ρ) : Prop :=
  ∃ exit store', main metadataDir files appId store = .ok (exit, store') ∧ exit.code = 0

theorem recordDelegation_zero {store : Store π ρ} {appId : String} :
    (∃ exit store', recordDelegation store appId = .ok (exit, store') ∧ exit.code = 0) ↔
      ∃ store', store.markDelegated appId = .ok store' := by
  unfold recordDelegation
  cases store.markDelegated appId with
  | ok store' => simp
  | error e => cases e <;> simp

/-- It does where the chosen file delegates to the application's role, and the store agrees. -/
theorem activates_iff {metadataDir : String} {files : Files} {appId : String}
    {store : Store π ρ} :
    Activates metadataDir files appId store ↔ ∃ role targetsJson roles,
      appRoleName appId = .ok role ∧ readDelegations metadataDir files = .ok (targetsJson, roles) ∧
      role ∈ roles ∧ ∃ store', store.markDelegated appId = .ok store' := by
  unfold Activates main
  cases hrole : appRoleName appId with
  | error e => simp [Except.mapError, bind, Except.bind]
  | ok role =>
    cases hread : readDelegations metadataDir files with
    | error e => cases e <;> simp [Except.mapError, bind, Except.bind]
    | ok found =>
      obtain ⟨targetsJson, roles⟩ := found
      by_cases hmem : role ∈ roles
      · simp only [Except.mapError, bind, Except.bind, hmem, if_true, recordDelegation_zero]
        simp [hmem]
      · simp [Except.mapError, bind, Except.bind, hmem]

/-! ## The directory of a repository -/

section Choice

/-- `Metadata.to_dict`, read back. -/
def DocumentAs (enc : Core.Encoding) (md : Metadata) (document : Json) : Prop :=
  ∃ members signed, document = .obj members ∧ members.lookup "signed" = some (.obj signed) ∧
    Core.SignedAs enc md signed

/-- The files of a repository's directory, in any order. -/
def Listing {β : Type} (enc : Core.Encoding) (dir : Directory β) (files : Files) : Prop :=
  ∀ name, Option.Rel (fun reading md => ∃ document, reading = .ok document ∧
    DocumentAs enc md document) (files.lookup name) (dir.metadata.get name)

variable {β : Type} {enc : Core.Encoding} {dir : Directory β} {files : Files} {md : Metadata}
  {role : String}

theorem Listing.document (h : Listing enc dir files) {name : String}
    (hget : dir.metadata.get name = some md) :
    ∃ document, files.lookup name = some (.ok document) ∧ DocumentAs enc md document := by
  have hrel := h name
  rw [hget] at hrel
  cases hfile : files.lookup name with
  | none => rw [hfile] at hrel; cases hrel
  | some reading =>
    rw [hfile] at hrel
    cases hrel with
    | some hread =>
      obtain ⟨document, rfl, hdocument⟩ := hread
      exact ⟨document, rfl, hdocument⟩

theorem Listing.mem_iff (h : Listing enc dir files) {name : String} :
    name ∈ files.map Prod.fst ↔ ∃ md, dir.metadata.get name = some md := by
  have hrel := h name
  refine Iff.trans Table.isSome_get.symm ?_
  change (files.lookup name).isSome ↔ _
  cases hget : dir.metadata.get name with
  | none =>
    rw [hget] at hrel
    cases hfile : files.lookup name with
    | none => simp
    | some reading => rw [hfile] at hrel; cases hrel
  | some md =>
    obtain ⟨document, hfile, -⟩ := h.document hget
    simp [hfile]

/-! ### The file that is chosen -/

theorem dot_not_mem_of_fits {signed : Signed} (h : signed.Fits role) : '.' ∉ role.toList := by
  have happ (happ : AppRole role) : '.' ∉ role.toList := by
    obtain ⟨appId, hname⟩ := happ
    obtain ⟨hmatches, rfl⟩ := Core.appRoleName_eq_ok.mp hname
    rw [String.toList_append, List.mem_append, not_or]
    refine ⟨by decide, fun hdot => ?_⟩
    obtain hrest | hline := Core.appIdMatches_chars hmatches '.' hdot
    · exact absurd hrest (by decide)
    · exact absurd hline (by decide)
  cases signed with
  | targets =>
    obtain rfl | h := h
    · decide
    · exact happ h
  | root | snapshot | timestamp =>
    obtain rfl := h
    decide

/-- Of the names that a repository writes, the pattern takes those of the top-level targets. -/
theorem isVersioned_filename (hdot : '.' ∉ role.toList) {version : Nat} :
    isVersioned (filename role version) = true ↔ role = TARGETS := by
  by_cases hne : role = TIMESTAMP
  · subst hne
    have hfile : filename TIMESTAMP version = "timestamp.json" := if_pos rfl
    rw [hfile]
    decide
  have hsplit : ".targets.json".toList = ('.' :: TARGETS.toList) ++ ".json".toList := by decide
  rw [isVersioned, List.isSuffixOf_iff_suffix, Core.toList_filename hne, hsplit,
    ← List.cons_append, ← List.append_assoc, List.suffix_append_self_iff]
  constructor
  · rintro ⟨before, heq⟩
    obtain ⟨-, heq⟩ := (Text.append_cons_inj_right (by decide) hdot).mp heq
    exact String.toList_inj.mp heq.symm
  · rintro rfl
    exact List.suffix_append _ _

theorem headVersion_filename (hne : role ≠ TIMESTAMP) (version : Nat) :
    headVersion (filename role version) = some version := by
  have hdigit : ∀ c ∈ Nat.toDigits 10 version, decide (c ≠ '.') = true := by
    intro c hc
    have := Core.all_isDigit version c hc
    rw [decide_eq_true_iff]
    rintro rfl
    exact absurd this (by decide)
  have hhead : (filename role version).toList.takeWhile (· ≠ '.') = Nat.toDigits 10 version := by
    rw [Core.toList_filename hne, List.takeWhile_append_of_pos hdigit]
    simp
  have hall : (Nat.toDigits 10 version).all Char.isDigit = true :=
    List.all_eq_true.mpr (Core.all_isDigit version)
  simp only [headVersion, hhead]
  rw [if_pos ⟨Nat.toDigits_ne_nil, hall⟩]
  simp

theorem later_eq (a b : Nat × String) : later a b = a ∨ later a b = b := by
  unfold later
  split
  · exact .inr rfl
  · exact .inl rfl

theorem le_later (a b : Nat × String) : a.1 ≤ (later a b).1 ∧ b.1 ≤ (later a b).1 := by
  unfold later
  split <;> omega

theorem foldl_later_mem (rows : List (Nat × String)) (first : Nat × String) :
    rows.foldl later first ∈ first :: rows := by
  induction rows generalizing first with
  | nil => exact List.mem_cons_self
  | cons row rows ih =>
    obtain heq | hmem := List.mem_cons.mp (ih (later first row))
    · rw [List.foldl_cons, heq]
      obtain h | h := later_eq first row <;> rw [h]
      · exact List.mem_cons_self
      · exact List.mem_cons_of_mem _ List.mem_cons_self
    · exact List.mem_cons_of_mem _ (List.mem_cons_of_mem _ hmem)

theorem le_foldl_later (rows : List (Nat × String)) (first : Nat × String) :
    ∀ row ∈ first :: rows, row.1 ≤ (rows.foldl later first).1 := by
  induction rows generalizing first with
  | nil =>
    intro row hrow
    obtain rfl := List.mem_singleton.mp hrow
    exact Nat.le_refl _
  | cons next rows ih =>
    intro row hrow
    have hhead := ih (later first next) _ List.mem_cons_self
    obtain rfl | hrow := List.mem_cons.mp hrow
    · exact Nat.le_trans (le_later row next).1 hhead
    · obtain rfl | hrow := List.mem_cons.mp hrow
      · exact Nat.le_trans (le_later first row).2 hhead
      · exact ih _ row (List.mem_cons_of_mem _ hrow)

/-- A file of the directory is the alias of the root, or is named after its role and version. -/
theorem entered_of_get (h : Recorded dir) {name : String}
    (hget : dir.metadata.get name = some md) :
    name = "root.json" ∨ ∃ role, name = filename role md.version ∧ md.signed.Fits role := by
  obtain ⟨_, hroot | ⟨role, hname, -, hadmissible⟩⟩ :=
    h.entered_of_mem (h.mem_log (Table.mem_of_get hget))
  · exact .inl hroot
  · exact .inr ⟨role, hname, hadmissible.fits⟩

theorem isVersioned_of_get (h : Recorded dir) {name : String}
    (hget : dir.metadata.get name = some md) :
    isVersioned name = true ↔ name = filename TARGETS md.version := by
  obtain rfl | ⟨role, rfl, hfits⟩ := entered_of_get h hget
  · refine ⟨fun hversioned => absurd hversioned (by decide), fun hname => ?_⟩
    exact absurd hname.symm (Core.filename_ne_root _)
  · rw [isVersioned_filename (dot_not_mem_of_fits hfits)]
    exact ⟨fun heq => heq ▸ rfl, Core.role_of_filename⟩

/-- There is no file without a version. -/
theorem plain_not_mem (h : Recorded dir) (hfiles : Listing enc dir files) :
    "targets.json" ∉ files.map Prod.fst := by
  intro hmem
  obtain ⟨md, hget⟩ := hfiles.mem_iff.mp hmem
  obtain hroot | ⟨role, hname, -⟩ := entered_of_get h hget
  · exact absurd hroot (by decide)
  · by_cases hne : role = TIMESTAMP
    · rw [hne, filename, if_pos rfl] at hname
      exact absurd hname (by decide)
    · exact Core.filename_ne_alias hne _ (by decide) hname.symm

/-- The file that is chosen is the last one of the top-level targets. -/
theorem currentTargets_eq (h : Recorded dir) (hfiles : Listing enc dir files)
    (metadataDir : String) : currentTargets metadataDir (files.map Prod.fst) =
      match lastOf TARGETS dir.log with
      | some md => .ok (filename TARGETS md.version)
      | none => .error (.DelegationMissingError ("no targets metadata in " ++ metadataDir)) := by
  rw [currentTargets, if_neg (plain_not_mem h hfiles)]
  generalize hrows : (files.map Prod.fst).filterMap (fun name =>
    if isVersioned name then (headVersion name).map fun version => (version, name) else none) = rows
  have hrow (row : Nat × String) : row ∈ rows ↔ ∃ md, dir.metadata.get row.2 = some md ∧
      row = (md.version, filename TARGETS md.version) := by
    rw [← hrows, List.mem_filterMap]
    constructor
    · rintro ⟨name, hname, hmatch⟩
      obtain ⟨md, hget⟩ := hfiles.mem_iff.mp hname
      split at hmatch
      next hversioned =>
        obtain rfl := (isVersioned_of_get h hget).mp hversioned
        rw [headVersion_filename (by decide)] at hmatch
        obtain rfl := Option.some.inj hmatch
        exact ⟨md, hget, rfl⟩
      · cases hmatch
    · rintro ⟨md, hget, rfl⟩
      refine ⟨_, hfiles.mem_iff.mpr ⟨md, hget⟩, ?_⟩
      rw [if_pos ((isVersioned_of_get h hget).mpr rfl), headVersion_filename (by decide)]
      rfl
  cases hlast : lastOf TARGETS dir.log with
  | none =>
    cases rows with
    | nil => rfl
    | cons first rest =>
      obtain ⟨md, hget, hfirst⟩ := (hrow first).mp List.mem_cons_self
      have hof : Core.fileOf TARGETS (first.2, md) = some md := by
        rw [hfirst]
        exact if_pos rfl
      have hsome : (lastOf TARGETS dir.log).isSome :=
        History.latest_isSome (h.mem_log (Table.mem_of_get hget)) (by rw [hof]; rfl)
      rw [hlast] at hsome
      cases hsome
  | some md =>
    have hget : dir.metadata.get (filename TARGETS md.version) = some md := by
      rw [h.stored]
      exact Core.lookup_lastOf (h.entered.mono fun _ _ => Core.Entered.named) hlast
    have hmem := (hrow (md.version, _)).mpr ⟨md, hget, rfl⟩
    cases rows with
    | nil => cases hmem
    | cons first rest =>
      obtain ⟨other, hother, heq⟩ := (hrow _).mp (foldl_later_mem rest first)
      have hle : md.version ≤ (rest.foldl later first).1 :=
        le_foldl_later rest first _ hmem
      have hge : other.version ≤ lastVersion TARGETS dir.log :=
        Core.version_le_of_seen h.entered Core.seen_targets
          (h.mem_log (Table.mem_of_get hother)) (congrArg Prod.snd heq)
      rw [Core.lastVersion_of_lastOf hlast] at hge
      rw [heq] at hle
      change Except.ok (rest.foldl later first).2 = _
      rw [heq, Nat.le_antisymm hge hle]

theorem names_of_written {written : List Json} {rows : Table String Core.DelegatedRole}
    (h : List.Forall₂ (fun json row => Core.DelegatedRoleAs json row.2) written rows) :
    written.filterMap (Json.getStr? "name") = rows.map (·.2.name) := by
  induction h with
  | nil => rfl
  | @cons json row written rows hrow _ ih =>
    obtain ⟨members, rfl, hname, -⟩ := hrow
    have hget : Json.getStr? "name" (.obj members) = some row.2.name := by
      rw [Json.getStr?, Json.get?, hname]
      rfl
    rw [List.filterMap_cons_some hget, List.map_cons, ih]

/-- The roles that are read of a document are those the file delegates to. -/
theorem mem_delegatedRoles {document : Json} (h : DocumentAs enc md document)
    (hfits : ∃ targets, md.signed = .targets targets) (htitled : md.signed.Titled)
    (targetsJson : String) : ∃ roles, delegatedRoles targetsJson (.ok document) = .ok roles ∧
      ∀ role, role ∈ roles ↔ role ∈ md.signed.delegates := by
  obtain ⟨members, signed, rfl, hsigned, hformat⟩ := h
  obtain ⟨⟨listed, delegations⟩, htargets⟩ := hfits
  have hcontent := hformat.content
  rw [htargets] at hcontent htitled ⊢
  obtain ⟨-, hdelegations⟩ := hcontent
  simp only [delegatedRoles, hsigned, Option.bind_some, Json.get?]
  cases delegations with
  | none =>
    refine ⟨[], ?_, fun role => Iff.rfl⟩
    dsimp only at hdelegations
    rw [hdelegations]
    rfl
  | some delegations =>
    obtain ⟨keys, roles⟩ := delegations
    obtain ⟨value, hvalue, members, _, written, rows, rfl, -, -, hroles, hperm, hrows⟩ :=
      hdelegations
    have hget : Json.get? "roles" (.obj members) = some (.arr written) := hroles
    simp only [hvalue, Option.bind_some, hget]
    refine ⟨_, rfl, fun role => ?_⟩
    rw [names_of_written hrows]
    change _ ↔ role ∈ roles.map (·.1)
    rw [(hperm.map _).mem_iff]
    have htitles : roles.map (·.2.name) = roles.map (·.1) := List.map_congr_left htitled
    rw [htitles]

/-- The command activates an application that the last targets metadata delegates to. -/
theorem activates_iff_delegated (h : Recorded dir) (hfiles : Listing enc dir files)
    {π ρ : Type} {metadataDir appId : String} {store : Store π ρ} :
    Activates metadataDir files appId store ↔ ∃ role, appRoleName appId = .ok role ∧
      role ∈ delegated dir.log ∧ ∃ store', store.markDelegated appId = .ok store' := by
  rw [activates_iff]
  cases hlast : lastOf TARGETS dir.log with
  | none =>
    simp [readDelegations, currentTargets_eq h hfiles, hlast, Core.delegated_of_none hlast,
      bind, Except.bind]
  | some md =>
    have hget : dir.metadata.get (filename TARGETS md.version) = some md := by
      rw [h.stored]
      exact Core.lookup_lastOf (h.entered.mono fun _ _ => Core.Entered.named) hlast
    obtain ⟨document, hfile, hdocument⟩ := hfiles.document hget
    obtain ⟨_, hadmissible⟩ := Core.Admissible.of_lastOf h.entered hlast
    obtain ⟨roles, hroles, hmem⟩ := mem_delegatedRoles hdocument
      (Core.targets_of_fits hadmissible.fits (.inl rfl)) hadmissible.titled
      (metadataDir ++ "/" ++ filename TARGETS md.version)
    have hread : readDelegations metadataDir files =
        .ok (metadataDir ++ "/" ++ filename TARGETS md.version, roles) := by
      simp only [readDelegations, currentTargets_eq h hfiles, hlast, bind, Except.bind, hfile,
        Option.getD_some, hroles]
      rfl
    simp only [hread, Except.ok.injEq, Prod.mk.injEq, Core.delegated_of_lastOf hlast]
    constructor
    · rintro ⟨role, _, _, hrole, ⟨rfl, rfl⟩, hin, hstore⟩
      exact ⟨role, hrole, (hmem role).mp hin, hstore⟩
    · rintro ⟨role, hrole, hin, hstore⟩
      exact ⟨role, _, _, hrole, ⟨rfl, rfl⟩, (hmem role).mpr hin, hstore⟩

end Choice

/-! ## What clients see -/

section Sight

variable {β : Type} {dir : Directory β} {role : String} {log : Writes}

/-- The targets that the timestamp leads to delegate to the role. -/
def Visible (dir : Directory β) (role : String) : Prop :=
  ∃ targets, announced dir TARGETS = some targets ∧ role ∈ (Signed.targets targets).delegates

/-- After the first targets that delegate to the role a timestamp was written. -/
def Timestamped (log : Writes) (role : String) : Prop :=
  ∀ newer md older, log = newer ++ (filename TARGETS md.version, md) :: older →
    role ∈ md.signed.delegates → role ∉ delegated older →
    "timestamp.json" ∈ newer.map Prod.fst

/-- A file of a role that is seen is still what it was when it was the last of its role. -/
theorem get_of_lastOf (h : Recorded dir) {newer older : Writes} (hlog : dir.log = newer ++ older)
    (hseen : Core.Seen role) (hrole : role ≠ TIMESTAMP) {md : Metadata}
    (hlast : lastOf role older = some md) :
    dir.metadata.get (filename role md.version) = some md := by
  have hentered := h.entered
  rw [hlog] at hentered
  obtain ⟨later, before, rfl, -⟩ := Core.exists_of_lastOf hentered.older hlast
  rw [← List.append_assoc] at hlog hentered
  rw [h.stored, hlog]
  exact Core.lookup_of_seen hentered hseen hrole

/-- The last timestamp leads to the targets that were there when it was written. -/
theorem announced_of_timestamp (h : Recorded dir) {newer older : Writes} {timestamp : Metadata}
    (hlog : dir.log = newer ++ ("timestamp.json", timestamp) :: older)
    (hnone : "timestamp.json" ∉ newer.map Prod.fst) :
    ∃ targets, announced dir TARGETS = some targets ∧
      (Signed.targets targets).delegates = delegated older := by
  have hentered := h.entered
  rw [hlog] at hentered
  have hname : "timestamp.json" = Core.filename TIMESTAMP timestamp.version := rfl
  obtain ⟨-, hadmissible⟩ := Core.entered_of_name hentered.of_append hname
  obtain ⟨version, hsigned⟩ := Core.timestamp_of_fits hadmissible.fits
  obtain ⟨snapshot, hsnapshot, rfl, htargets, hnames⟩ := hadmissible.timestamp version hsigned
  obtain ⟨md, hlast⟩ := Option.isSome_iff_exists.mp htargets
  have hnamed : timestamp.signed = .timestamp snapshot.version := hsigned
  have hget : dir.metadata.get "timestamp.json" = some timestamp := by
    rw [h.stored, hlog, List.lookup_append, List.lookup_eq_none_iff.mpr]
    · simp
    · intro file hfile
      rw [bne_iff_ne]
      rintro hname
      exact hnone (List.mem_map.mpr ⟨file, hfile, hname.symm⟩)
  rw [List.append_cons] at hlog
  have hmetas := hnames.all TARGETS Core.seen_targets (.inl rfl) md hlast
  obtain ⟨_, hfits⟩ := Core.Admissible.of_lastOf hentered.older.2 hlast
  obtain ⟨targets, hcontent⟩ := Core.targets_of_fits hfits.fits (.inl rfl)
  refine ⟨targets, ?_, ?_⟩
  · simp only [announced, hget, hnamed, Core.Signed.snapshotVersion,
      get_of_lastOf h hlog Core.seen_snapshot (by decide) hsnapshot, hmetas,
      get_of_lastOf h hlog Core.seen_targets (by decide) hlast, hcontent, Option.bind_eq_bind,
      Option.bind_some]
    rfl
  · rw [Core.delegated_of_lastOf hlast, hcontent]

/-- Nothing is announced before there is a timestamp. -/
theorem announced_of_none (h : Recorded dir) (hnone : "timestamp.json" ∉ dir.log.map Prod.fst) :
    announced dir role = none := by
  have hget : dir.metadata.get "timestamp.json" = none := by
    rw [h.stored, List.lookup_eq_none_iff]
    intro file hfile
    rw [bne_iff_ne]
    exact fun hname => hnone (List.mem_map.mpr ⟨file, hfile, hname.symm⟩)
  simp only [announced, hget, Option.bind_eq_bind, Option.bind_none]

/-- Where a role is delegated to, there is a first file that does so. -/
theorem exists_first (h : History.Justified Core.Entered log) (hrole : role ∈ delegated log) :
    ∃ newer md older, log = newer ++ (filename TARGETS md.version, md) :: older ∧
      role ∈ md.signed.delegates ∧ role ∉ delegated older := by
  induction log with
  | nil => cases hrole
  | cons file log ih =>
    by_cases hbefore : role ∈ delegated log
    · obtain ⟨newer, md, older, rfl, hmem, hfirst⟩ := ih h.2 hbefore
      exact ⟨file :: newer, md, older, rfl, hmem, hfirst⟩
    · obtain ⟨name, md⟩ := file
      obtain hroot | ⟨other, hname, -, -⟩ := h.1
      · obtain rfl : name = "root.json" := hroot
        unfold delegated at hrole
        rw [Core.lastOf_cons_root] at hrole
        exact absurd hrole hbefore
      · unfold delegated at hrole
        rw [Core.lastOf_cons hname] at hrole
        by_cases heq : TARGETS = other
        · subst heq
          rw [if_pos rfl] at hrole
          obtain rfl : name = filename TARGETS md.version := hname
          exact ⟨[], md, log, rfl, hrole, hbefore⟩
        · rw [if_neg heq] at hrole
          exact absurd hrole hbefore

/-- A role that some file has delegated to is delegated to. -/
theorem delegated_of_written (h : History.Justified Core.Entered log) {newer older : Writes}
    {md : Metadata} (hlog : log = newer ++ (filename TARGETS md.version, md) :: older)
    (hrole : role ∈ md.signed.delegates) : role ∈ delegated log := by
  rw [hlog] at h ⊢
  refine Core.delegated_mono_of_entered h ?_
  rw [Core.delegated_of_lastOf ((Core.lastOf_cons rfl TARGETS).trans (if_pos rfl))]
  exact hrole

/-- A delegation that is written is visible exactly when a timestamp has followed it. -/
theorem visible_iff_timestamped (h : Recorded dir) (hrole : role ∈ delegated dir.log) :
    Visible dir role ↔ Timestamped dir.log role := by
  have hentered := h.entered
  by_cases hnone : "timestamp.json" ∈ dir.log.map Prod.fst
  · obtain ⟨names, _, hnames, hfirst⟩ := List.eq_append_cons_of_mem hnone
    obtain ⟨newer, rest, hlog, rfl, hrest⟩ := List.map_eq_append_iff.mp hnames
    obtain ⟨⟨name, timestamp⟩, older, rfl, hname, -⟩ := List.map_eq_cons_iff.mp hrest
    obtain rfl : name = "timestamp.json" := hname
    obtain ⟨targets, hannounced, hdelegates⟩ := announced_of_timestamp h hlog hfirst
    have hvisible : Visible dir role ↔ role ∈ delegated older := by
      rw [← hdelegates]
      exact ⟨fun ⟨_, hother, hmem⟩ => Option.some.inj (hannounced.symm.trans hother) ▸ hmem,
        fun hmem => ⟨targets, hannounced, hmem⟩⟩
    have hne (md : Metadata) : ("timestamp.json", timestamp) ≠ (filename TARGETS md.version, md) :=
      fun heq => Core.filename_ne_timestamp (show TARGETS ≠ TIMESTAMP by decide) _
        (congrArg Prod.fst heq).symm
    rw [hvisible]
    constructor
    · intro hbefore newer' md older' hlog' hmem hnot
      obtain ⟨between, rfl, -⟩ | ⟨between, -, rfl⟩ :=
        History.older_of_split (hne md) (hlog.symm.trans hlog')
      · simp
      · -- the timestamp would have been written before the first delegation
        rw [hlog'] at hentered
        have hgrown := hentered.older.2
        rw [List.append_cons] at hgrown hnot
        exact absurd (Core.delegated_mono_of_entered hgrown hbefore) hnot
    · intro htimestamped
      obtain ⟨newer', md, older', hlog', hmem, hnot⟩ := exists_first hentered hrole
      have hstamp := htimestamped newer' md older' hlog' hmem hnot
      obtain ⟨between, -, rfl⟩ | ⟨between, rfl, -⟩ :=
        History.older_of_split (hne md) (hlog.symm.trans hlog')
      · rw [hlog, List.append_cons] at hentered
        exact delegated_of_written hentered.older rfl hmem
      · refine absurd ?_ hfirst
        rw [List.map_append]
        exact List.mem_append_left _ hstamp
  · refine iff_of_false ?_ fun htimestamped => ?_
    · rintro ⟨targets, hannounced, -⟩
      rw [announced_of_none h hnone] at hannounced
      cases hannounced
    · obtain ⟨newer, md, older, hlog, hmem, hfirst⟩ := exists_first hentered hrole
      have hstamp := htimestamped newer md older hlog hmem hfirst
      refine hnone ?_
      rw [hlog, List.map_append]
      exact List.mem_append_left _ hstamp

end Sight

/-! ## The main result -/

section Main

variable {β π ρ : Type} {out : Core.Outside β}

/-- In every directory that operations, crashes and fresh instances lead to, the command
activates only what clients see exactly when a timestamp has followed the first targets that
delegate to a source which waits to be activated. -/
theorem activates_visible_iff (hlists : Core.ListsReported out.tuf) {w : Core.World β}
    (hw : (Core.system out).Reachable w) {enc : Core.Encoding} {files : Files}
    (hfiles : Listing enc w.dir files) (metadataDir appId : String) (store : Store π ρ) :
    (Activates metadataDir files appId store →
        ∃ role, appRoleName appId = .ok role ∧ Visible w.dir role) ↔
      ∀ role, appRoleName appId = .ok role → (∃ store', store.markDelegated appId = .ok store') →
        Timestamped w.dir.log role := by
  have h := (Core.restartable hlists hw).recorded
  rw [activates_iff_delegated h hfiles]
  constructor
  · intro hvisible role hrole hstore
    by_cases hmem : role ∈ delegated w.dir.log
    · obtain ⟨other, hother, hseen⟩ := hvisible ⟨role, hrole, hmem, hstore⟩
      obtain rfl := Except.ok.inj (hother.symm.trans hrole)
      exact (visible_iff_timestamped h hmem).mp hseen
    · intro newer md older hlog hwritten
      exact absurd (delegated_of_written h.entered hlog hwritten) hmem
  · rintro htimestamped ⟨role, hrole, hmem, hstore⟩
    exact ⟨role, hrole, (visible_iff_timestamped h hmem).mpr (htimestamped role hrole hstore)⟩

end Main

/-- What the repository writes, as it is read back. -/
def filesOf {β : Type} (enc : Core.Encoding) (dir : Directory β) : Files :=
  dir.metadata.map fun row => (row.1, .ok (.obj [("signatures", .arr []),
    ("signed", .obj (Core.toDict enc row.2))]))

theorem listing_filesOf {β : Type} {enc : Core.Encoding} {dir : Directory β}
    (h : ∀ row ∈ dir.metadata, row.2.signed.Distinct) : Listing enc dir (filesOf enc dir) := by
  intro name
  unfold filesOf
  rw [Table.get]
  generalize dir.metadata = files at h
  induction files with
  | nil => exact .none
  | cons row files ih =>
    rw [List.map_cons, List.lookup_cons, List.lookup_cons]
    cases name == row.1 with
    | true =>
      exact .some ⟨_, rfl, _, _, rfl, rfl, Core.signedAs_toDict (h row List.mem_cons_self)⟩
    | false => exact ih fun other hother => h other (List.mem_cons_of_mem _ hother)

/-- A source that has been validated. -/
def waitingSource : Source where
  id := 1
  appId := "editor"
  forge := .GITHUB
  project := "example/editor"
  apiBase := "https://api.github.com"
  projectUrl := "https://github.com/example/editor"
  status := .PENDING_DELEGATION
  critical := false
  assetName := "editor.zip"
  tagPrefix := "v"
  requireTagRefPrefix := "refs/tags/"
  maxAssetBytes := 1000
  channel := "stable"
  platform := "linux"
  arch := "x64"
  workflowUri := some "https://github.com/example/editor/.github/workflows/release.yml"
  oidcIssuer := some "https://token.actions.githubusercontent.com"
  repositoryId := some "7"
  repositoryOwnerId := some "8"
  runnerEnvironment := "github-hosted"
  builderId := none
  builderKeyid := none
  builderPublicKeyPem := none
  attestationAsset := "provenance.intoto.jsonl"
  lastError := none

def waitingStore : Store Unit Unit := { Store.empty with sources := [waitingSource] }

def plainEncoding : Core.Encoding := ⟨toString, .str⟩

/-- The ceremony is killed after the targets are written. -/
def killedCeremony : List (Core.Action String) :=
  [.start Core.fiveKeys, .call .initialise 9, .call (.addApp "editor" false) 1]

/-- The ceremony that is run again to its end. -/
theorem activates_visible_iff_resumed :
    ∃ w, System.exec (Core.next Core.textPayloads) (killedCeremony ++ [.start Core.fiveKeys,
        .call (.addApp "editor" false) 9]) .empty = some w ∧
      Listing plainEncoding w.dir (filesOf plainEncoding w.dir) ∧
      ((Activates "repo/metadata" (filesOf plainEncoding w.dir) "editor" waitingStore →
          ∃ role, appRoleName "editor" = .ok role ∧ Visible w.dir role) ↔
        ∀ role, appRoleName "editor" = .ok role →
          (∃ store', waitingStore.markDelegated "editor" = .ok store') →
          Timestamped w.dir.log role) := by
  have hrun : (System.exec (Core.next Core.textPayloads) (killedCeremony ++
      [.start Core.fiveKeys, .call (.addApp "editor" false) 9]) .empty).map (fun w =>
        decide (∀ row ∈ w.dir.metadata, row.2.signed.Distinct)) = some true := by
    decide +kernel
  obtain ⟨w, hw, hdistinct⟩ := Option.map_eq_some_iff.mp hrun
  have hlisting := @listing_filesOf _ plainEncoding _ (of_decide_eq_true hdistinct)
  exact ⟨w, hw, hlisting, activates_visible_iff Core.listsReported_pythonTuf
    (System.reachable_exec (.start rfl) hw) hlisting _ _ _⟩

/-- The highest version delegates to the editor, and no timestamp leads to it. -/
theorem activated_unseen :
    ¬ ∀ (out : Core.Outside String), Core.ListsReported out.tuf → ∀ w : Core.World String,
      (Core.system out).Reachable w → ∀ (enc : Core.Encoding) (files : Files),
        Listing enc w.dir files → ∀ (metadataDir appId : String) (store : Store Unit Unit),
          Activates metadataDir files appId store →
            ∃ role, appRoleName appId = .ok role ∧ Visible w.dir role := by
  intro hclaim
  have hrun : (System.exec (Core.next Core.textPayloads) killedCeremony .empty).map (fun w =>
      decide ((∀ row ∈ w.dir.metadata, row.2.signed.Distinct) ∧
        "app-editor" ∈ delegated w.dir.log ∧
        (announced w.dir TARGETS).map (fun targets => (Signed.targets targets).delegates) =
          some [])) = some true := by
    decide +kernel
  obtain ⟨w, hw, hcheck⟩ := Option.map_eq_some_iff.mp hrun
  obtain ⟨hdistinct, hdelegated, hannounced⟩ := of_decide_eq_true hcheck
  have hreach := System.reachable_exec (.start rfl) hw
  have hlisting := @listing_filesOf _ plainEncoding _ hdistinct
  have hstore : ∃ store', waitingStore.markDelegated "editor" = .ok store' := ⟨_, rfl⟩
  have hactivates : Activates "repo/metadata" (filesOf plainEncoding w.dir) "editor"
      waitingStore :=
    (activates_iff_delegated (Core.restartable Core.listsReported_pythonTuf hreach).recorded
      hlisting).mpr ⟨"app-editor", rfl, hdelegated, hstore⟩
  obtain ⟨role, -, targets, htargets, hmem⟩ := hclaim Core.textPayloads
    Core.listsReported_pythonTuf w hreach plainEncoding _ hlisting "repo/metadata" "editor"
    waitingStore hactivates
  rw [htargets] at hannounced
  have hnone : (Signed.targets targets).delegates = [] := Option.some.inj hannounced
  rw [hnone] at hmem
  cases hmem

end DistPlatform.Registry
