import DistPlatform.Core.ReferenceClosure
import DistPlatform.Library.Runs

/-!
# Publication across crashes

One instance at a time works on the directory; it may be killed at any of its writes, and a
fresh one then scans what it finds. A scan learns the last version of every role whose file
names the pattern reads, and that is where a role name with a line feed is lost.

## Main definitions

* `system`, `careful` — instances one after the other, and the steps that keep the properties.
* `publication_closed` — every instant of a careful run.
-/

namespace DistPlatform.Core

open DistPlatform
open Runs

/-! ## The system -/

section Model

variable {β : Type}

/-- The directory, and the instance that works on it, if there is one. -/
structure World (β : Type) where
  repo : Option Instance
  dir : Directory β

def World.empty : World β := ⟨none, .empty⟩

/-- A fresh instance is built, or the current one runs a call that makes at most `budget`
writes. -/
inductive Action (β : Type)
  | start (backend : SignerBackend)
  | call (call : Call β) (budget : Nat)

variable (out : Outside β)

def afterCall : Ending (Session β) RepositoryError Unit → World β
  | .returned _ s _ | .raised _ s _ => ⟨some s.repo, s.dir⟩
  | .killed s => ⟨none, s.dir⟩

def next (w : World β) : Action β → Option (World β)
  | .start backend => some { w with repo := (Instance.new backend w.dir).toOption }
  | .call call budget =>
    w.repo.map fun repo => afterCall (call.perform out ⟨repo, w.dir⟩ budget)

def system : System (World β) (Action β) := .ofNext World.empty (next out)

/-- The payload a call stores. -/
def Call.stored : Call β → Option β
  | .addRelease _ payload _ => some payload
  | .setCurrent key => pointerPayload out key
  | _ => none

/-- No instance is built over a directory with a metadata file whose name has a line feed in
it, and no two payloads collide under SHA-256. -/
def careful (w : World β) : Action β → Bool
  | .start _ => w.dir.metadata.all fun file => !file.1.toList.contains '\n'
  | .call call _ => match call.stored out with
    | some payload => decide (NoCollision out w.dir payload)
    | none => true

end Model

/-! ## What a scan learns -/

section Scan

/-- `_versions.get(role, 0)` of a dictionary. -/
def known (versions : Table String Nat) (role : String) : Nat := (versions.get role).getD 0

variable {files : List (String × Metadata)} {acc : Table String Nat} {role : String}

theorem known_put (versions : Table String Nat) (name : String) (version : Nat) :
    known (versions.put name version) role = if role = name then version else known versions role := by
  rw [known, Table.get_put]
  split <;> rfl

/-- A file whose name the pattern reads raises what is known of its role. -/
theorem known_scanFile (hrole : role ≠ TIMESTAMP) (file : String × Metadata) :
    known (scanFile acc file) role = match matchVersioned file.1 with
      | some (version, name) => if role = name then max (known acc role) version else known acc role
      | none => known acc role := by
  unfold scanFile
  cases matchVersioned file.1 with
  | some found =>
    dsimp only
    rw [known_put]
    split
    next heq => rw [heq]; rfl
    · rfl
  | none =>
    dsimp only
    split
    · rw [known_put, if_neg hrole]
    · rfl

theorem known_scanFile_le (hrole : role ≠ TIMESTAMP) (file : String × Metadata) :
    known acc role ≤ known (scanFile acc file) role := by
  rw [known_scanFile hrole]
  split
  · split
    · exact Nat.le_max_left _ _
    · exact Nat.le_refl _
  · exact Nat.le_refl _

theorem known_scan_le (hrole : role ≠ TIMESTAMP) :
    known acc role ≤ known (files.foldl scanFile acc) role := by
  induction files generalizing acc with
  | nil => exact Nat.le_refl _
  | cons file files ih => exact Nat.le_trans (known_scanFile_le hrole file) ih

/-- No file of a role is newer than what the scan knows. -/
theorem scan_upper (hrole : role ≠ TIMESTAMP) {file : String × Metadata} (hfile : file ∈ files)
    {version : Nat} (hmatch : matchVersioned file.1 = some (version, role)) :
    version ≤ known (files.foldl scanFile acc) role := by
  induction files generalizing acc with
  | nil => cases hfile
  | cons first files ih =>
    obtain rfl | hfile := List.mem_cons.mp hfile
    · have hfirst : version ≤ known (scanFile acc file) role := by
        rw [known_scanFile hrole, hmatch]
        simp
      exact Nat.le_trans hfirst (known_scan_le hrole)
    · exact ih hfile

/-- What the scan knows of a role is the version of some file. -/
theorem scan_lower (hrole : role ≠ TIMESTAMP) :
    known (files.foldl scanFile acc) role = known acc role ∨
      ∃ file ∈ files, matchVersioned file.1 =
        some (known (files.foldl scanFile acc) role, role) := by
  induction files generalizing acc with
  | nil => exact .inl rfl
  | cons first files ih =>
    obtain heq | ⟨file, hfile, hmatch⟩ := @ih (scanFile acc first)
    · rw [List.foldl_cons, heq, known_scanFile hrole]
      cases hfirst : matchVersioned first.1 with
      | none => exact .inl rfl
      | some found =>
        obtain ⟨version, name⟩ := found
        dsimp only
        split
        next hname =>
          subst hname
          obtain hle | hle := Nat.le_total version (known acc role)
          · exact .inl (Nat.max_eq_left hle)
          · rw [Nat.max_eq_right hle]
            exact .inr ⟨first, List.mem_cons_self, hfirst⟩
        · exact .inl rfl
    · exact .inr ⟨file, List.mem_cons_of_mem _ hfile, hmatch⟩

/-- The timestamp's version is the one in `timestamp.json`. -/
theorem scan_timestamp
    (hnone : ∀ file ∈ files, ∀ version, matchVersioned file.1 ≠ some (version, TIMESTAMP)) :
    known (files.foldl scanFile acc) TIMESTAMP = known acc TIMESTAMP ∧
        (∀ file ∈ files, file.1 ≠ "timestamp.json") ∨
      ∃ file ∈ files, file.1 = "timestamp.json" ∧
        known (files.foldl scanFile acc) TIMESTAMP = file.2.version := by
  induction files generalizing acc with
  | nil => exact .inl ⟨rfl, nofun⟩
  | cons first files ih =>
    have hfirst : first.1 ≠ "timestamp.json" →
        known (scanFile acc first) TIMESTAMP = known acc TIMESTAMP := by
      intro hne
      unfold scanFile
      cases hmatch : matchVersioned first.1 with
      | none => rw [if_neg hne]
      | some found =>
        obtain ⟨version, name⟩ := found
        dsimp only
        rw [known_put, if_neg]
        rintro rfl
        exact hnone first List.mem_cons_self version hmatch
    have hrest := @ih (scanFile acc first) fun file hfile =>
      hnone file (List.mem_cons_of_mem _ hfile)
    obtain ⟨heq, hothers⟩ | ⟨file, hfile, hname, heq⟩ := hrest
    · rw [List.foldl_cons, heq]
      by_cases hname : first.1 = "timestamp.json"
      · refine .inr ⟨first, List.mem_cons_self, hname, ?_⟩
        have hmatch : matchVersioned first.1 = none := hname ▸ matchVersioned_timestamp
        rw [scanFile, hmatch]
        dsimp only
        rw [if_pos hname, known_put, if_pos rfl]
      · refine .inl ⟨hfirst hname, fun file hfile => ?_⟩
        obtain rfl | hfile := List.mem_cons.mp hfile
        · exact hname
        · exact hothers file hfile
    · exact .inr ⟨file, List.mem_cons_of_mem _ hfile, hname, heq⟩

end Scan

/-! ## A fresh instance -/

section Fresh

variable {β : Type} {out : Outside β} {dir : Directory β}

/-- Over names without a line feed, the pattern reads exactly the versioned files. -/
theorem Sound.matchVersioned_eq (h : Sound out dir)
    (hlines : ∀ file ∈ dir.metadata, '\n' ∉ file.1.toList) {file : String × Metadata}
    (hfile : file ∈ dir.metadata) {version : Nat} {role : String}
    (hmatch : matchVersioned file.1 = some (version, role)) :
    role ≠ TIMESTAMP ∧ file.1 = filename role version := by
  have hget := Table.get_of_mem h.distinct hfile
  obtain hroot | ⟨name, v, hname⟩ := h.named _ _ hget
  · rw [hroot, matchVersioned_root] at hmatch
    cases hmatch
  · by_cases hne : name = TIMESTAMP
    · have hname : file.1 = "timestamp.json" := by rw [hname, hne]; rfl
      rw [hname, matchVersioned_timestamp] at hmatch
      cases hmatch
    · have hline : '\n' ∉ name.toList := fun hin =>
        hlines file hfile (by rw [hname, toList_filename hne]; simp [hin])
      have hempty := (h.fits name v _ (hname ▸ hget)).ne_empty
      rw [hname, matchVersioned_filename hne hempty hline] at hmatch
      obtain ⟨rfl, rfl⟩ := Prod.mk.inj (Option.some.inj hmatch)
      exact ⟨hne, hname⟩

theorem Sound.knows_scan (h : Sound out dir)
    (hlines : ∀ file ∈ dir.metadata, '\n' ∉ file.1.toList) (backend : SignerBackend) :
    Knows ⟨backend, TOP_LEVEL_POLICIES, scanVersions dir, []⟩ dir where
  upper role version hne hsome := by
    obtain ⟨md, hmd⟩ := Option.isSome_iff_exists.mp hsome
    have hmem := Table.mem_of_get hmd
    have hline : '\n' ∉ role.toList := fun hin =>
      hlines _ hmem (by rw [toList_filename hne]; simp [hin])
    exact scan_upper hne hmem
      (matchVersioned_filename hne (h.fits role version md hmd).ne_empty hline version)
  lower role hpos := by
    by_cases hne : role = TIMESTAMP
    · subst hne
      obtain ⟨hzero, -⟩ | ⟨file, hfile, hname, -⟩ := @scan_timestamp dir.metadata []
        fun file hfile version hmatch => (h.matchVersioned_eq hlines hfile hmatch).1 rfl
      · change 0 < known (scanVersions dir) TIMESTAMP at hpos
        rw [scanVersions, hzero] at hpos
        exact absurd hpos (by decide)
      · have hget := Table.get_isSome_of_mem hfile
        rwa [hname] at hget
    · obtain hzero | ⟨file, hfile, hmatch⟩ := @scan_lower dir.metadata [] role hne
      · change 0 < known (scanVersions dir) role at hpos
        rw [scanVersions, hzero] at hpos
        exact absurd hpos (by simp [known])
      · have hget := Table.get_isSome_of_mem hfile
        rwa [(h.matchVersioned_eq hlines hfile hmatch).2] at hget
  timestamp md hmd := by
    have hmem := Table.mem_of_get hmd
    obtain ⟨-, hnone⟩ | ⟨file, hfile, hname, heq⟩ := @scan_timestamp dir.metadata []
      fun file hfile version hmatch => (h.matchVersioned_eq hlines hfile hmatch).1 rfl
    · exact absurd rfl (hnone _ hmem)
    · have hget := Table.get_of_mem h.distinct hfile
      rw [hname, hmd] at hget
      exact Nat.le_of_eq ((congrArg _ (Option.some.inj hget)).trans heq.symm)
  appRoles _ hmem := by cases hmem
  targets hne := absurd rfl hne

theorem Knows.withAppRoles {repo : Instance} (h : Knows repo dir)
    {policies : Table String RolePolicy} {roles : List String}
    (hroles : ∀ role ∈ roles, AppRole role) (htargets : repo.version TARGETS ≠ 0) :
    Knows { repo with policies, appRoles := roles } dir :=
  ⟨h.upper, h.lower, h.timestamp, hroles, fun _ => Nat.pos_of_ne_zero htargets⟩

/-- The constructor learns everything an instance has to know. -/
theorem Sound.knows_new (h : Sound out dir)
    (hlines : ∀ file ∈ dir.metadata, '\n' ∉ file.1.toList) {backend : SignerBackend}
    {repo : Instance} (hnew : Instance.new backend dir = .ok repo) : Knows repo dir := by
  have hscan := h.knows_scan hlines backend
  unfold Instance.new at hnew
  dsimp only at hnew
  split at hnew
  · exact Except.ok.inj hnew ▸ hscan
  next htargets =>
    obtain ⟨md, hopen, hnew⟩ := Fallible.bind_eq_ok.mp hnew
    split at hnew
    next targets hsigned =>
      split at hnew
      · exact Fallible.pure_eq_ok.mp hnew ▸ hscan
      next delegations hdelegations =>
        obtain ⟨policies, -, hnew⟩ := Fallible.bind_eq_ok.mp hnew
        rw [← Fallible.pure_eq_ok.mp hnew]
        have hbacked := ((@opened_of_openRole β ⟨_, dir⟩ TARGETS md hopen).backed ⟨h, hscan⟩
          (.inl rfl)).2
        rw [hsigned] at hbacked
        exact hscan.withAppRoles (hbacked.2 delegations hdelegations) htargets
    · cases hnew

end Fresh

/-! ## Runs -/

section Main

variable {β : Type} {out : Outside β}

structure WorldInv (out : Outside β) (w : World β) : Prop where
  sound : Sound out w.dir
  knows : ∀ repo, w.repo = some repo → Knows repo w.dir

theorem sound_empty : Sound out (.empty : Directory β) where
  distinct := List.nodup_nil
  backed _ _ hget := by cases hget
  fits _ _ _ hget := by cases hget
  named _ _ hget := by cases hget
  kept _ hmem := by cases hmem
  once _ _ _ _ _ hmem := by cases hmem
  times := .nil
  latest _ hmem := by cases hmem

/-- Every operation keeps the invariant, however many writes it gets to make. -/
theorem perform_ensures {s : Session β} (hs : Inv out s) (call : Call β)
    (hcollision : ∀ payload, call.stored out = some payload → NoCollision out s.dir payload) :
    (call.perform out).Ensures s (fun _ s' => Inv out s') (Inv out)
      (fun s' => Sound out s'.dir) := by
  cases call with
  | initialise => exact initialise_ensures hs
  | addApp appId critical => exact .bind (addApp_ensures hs appId critical) fun _ _ h => .pure h
  | addRelease key payload info =>
    exact .bind (addRelease_ensures hs key (hcollision payload rfl) info) fun _ _ h => .pure h
  | setCurrent key => exact .bind (setCurrent_ensures hs key hcollision) fun _ _ h => .pure h

theorem worldInv_inductive (out : Outside β) :
    ((system out).when fun w a => careful out w a = true).Inductive (fun _ => True)
      (WorldInv out) where
  start w hw := by
    obtain rfl : w = World.empty := hw
    exact ⟨sound_empty, nofun⟩
  step w a w' _ h hstep := by
    obtain ⟨hcareful, hnext⟩ := hstep
    have hnext : next out w a = some w' := hnext
    cases a with
    | start backend =>
      obtain rfl := Option.some.inj hnext
      refine ⟨h.sound, fun repo hrepo => ?_⟩
      have hlines : ∀ file ∈ w.dir.metadata, '\n' ∉ file.1.toList := by
        intro file hfile hline
        have := List.all_eq_true.mp hcareful file hfile
        simp [hline] at this
      cases hnew : Instance.new backend w.dir with
      | error e => simp [hnew, Except.toOption] at hrepo
      | ok repo' =>
        obtain rfl : repo' = repo := by simpa [hnew, Except.toOption] using hrepo
        exact h.sound.knows_new hlines hnew
    | call call budget =>
      obtain ⟨repo, hrepo, rfl⟩ := Option.map_eq_some_iff.mp hnext
      have hs : Inv out ⟨repo, w.dir⟩ := ⟨h.sound, h.knows repo hrepo⟩
      have hend := perform_ensures hs call (fun payload hstored => ?_) budget
      · cases hresult : call.perform out ⟨repo, w.dir⟩ budget with
        | returned _ s _ =>
          rw [hresult] at hend
          exact ⟨hend.sound, fun _ heq => Option.some.inj heq ▸ hend.knows⟩
        | raised _ s _ =>
          rw [hresult] at hend
          exact ⟨hend.sound, fun _ heq => Option.some.inj heq ▸ hend.knows⟩
        | killed s =>
          rw [hresult] at hend
          exact ⟨hend, nofun⟩
      · simpa [careful, hstored] using hcareful

end Main

/-! ## The main result -/

/-- `do_snapshot`: roles the snapshot does not record, or records with an older version. -/
def updatedMeta (recorded reported : Table String Nat) : Table String Nat :=
  reported.foldr (fun row metas => metas.put row.1 row.2) recorded

theorem get_updatedMeta (recorded reported : Table String Nat) (file : String) :
    (updatedMeta recorded reported).get file =
      (reported.get file).or (recorded.get file) := by
  induction reported with
  | nil => rfl
  | cons row reported ih =>
    obtain ⟨name, version⟩ := row
    change ((updatedMeta recorded reported).put name version).get file = _
    rw [Table.get_put]
    by_cases h : file = name
    · simp [h, Table.get]
    · rw [if_neg h, ih]
      simp [Table.get, List.lookup_cons, beq_eq_false_iff_ne.mpr h]

def pythonSnapshot (signed : Bool) (recorded reported : Table String Nat) :
    Except String (Option (Table String Nat)) :=
  if signed ∧ ∀ row ∈ reported, recorded.get row.1 = reported.get row.1 then .ok none
  else if ∃ row ∈ reported, row.2 < (recorded.get row.1).getD 0 then .error "version rollback"
  else .ok (some (updatedMeta recorded reported))

def pythonTimestamp (signed : Bool) (recorded reported : Nat) : Except String (Option Nat) :=
  if reported < recorded then .error "snapshot version rollback"
  else if signed ∧ recorded = reported then .ok none
  else .ok (some reported)

theorem pythonSnapshot_skips (signed : Bool) (recorded reported : Table String Nat) :
    pythonSnapshot signed recorded reported = .ok none ↔
      signed = true ∧ ∀ file version, reported.get file = some version →
        recorded.get file = some version := by
  unfold pythonSnapshot
  have hsame : (∀ row ∈ reported, recorded.get row.1 = reported.get row.1) ↔
      ∀ file version, reported.get file = some version → recorded.get file = some version := by
    constructor
    · intro h file version hget
      rw [h _ (Table.mem_of_get hget), hget]
    · intro h row hrow
      obtain ⟨version, hget⟩ := Option.isSome_iff_exists.mp (Table.get_isSome_of_mem hrow)
      rw [h _ version hget, hget]
  rw [← hsame]
  split
  next h => simpa using h
  next h => split <;> simpa using h

theorem pythonSnapshot_updates (signed : Bool) (recorded reported metas : Table String Nat)
    (h : pythonSnapshot signed recorded reported = .ok (some metas)) (file : String)
    (version : Nat) (hget : metas.get file = some version) :
    reported.get file = some version ∨
      reported.get file = none ∧ recorded.get file = some version := by
  unfold pythonSnapshot at h
  split at h
  · cases h
  · split at h
    · cases h
    · obtain rfl := Option.some.inj (Except.ok.inj h)
      rw [get_updatedMeta] at hget
      cases hreported : reported.get file with
      | none => exact .inr ⟨rfl, by simpa [hreported] using hget⟩
      | some v => exact .inl (by simpa [hreported] using hget)

theorem pythonTimestamp_skips (signed : Bool) (recorded reported : Nat) :
    pythonTimestamp signed recorded reported = .ok none ↔ signed = true ∧ recorded = reported := by
  unfold pythonTimestamp
  grind

theorem pythonTimestamp_updates (signed : Bool) (recorded reported version : Nat)
    (h : pythonTimestamp signed recorded reported = .ok (some version)) :
    version = reported := by
  unfold pythonTimestamp at h
  grind

def pythonTuf : TufRepository where
  snapshotMeta := pythonSnapshot
  timestampSnapshot := pythonTimestamp
  snapshot_skips := pythonSnapshot_skips
  snapshot_updates := pythonSnapshot_updates
  timestamp_skips := pythonTimestamp_skips
  timestamp_updates := pythonTimestamp_updates

theorem plain_of_all {text : String} (h : (text.toList.all fun c => c != '/' && c != '.') = true) :
    ∀ c ∈ text.toList, c ≠ '/' ∧ c ≠ '.' := by
  simpa [List.all_eq_true] using h

/-- Payloads as text; the digests are those of the two payloads of the runs below. -/
def textPayloads : Outside String where
  sha256 payload :=
    if payload = "editor 1.0" then
      "85baff541a93d1c5024020c40c79890a3123993997761a4f8ec7010c0c363d14"
    else "0ac72c8097025df0ad403a56edc88ecdc7f3114e1975e279eb617c2c331914be"
  length payload := payload.length
  dumps _ := "\x7b\"target_path\":\"editor/stable/linux-x64/1.0/editor.zip\",\"version\":\"1.0\"\x7d"
  clock n := n
  tuf := pythonTuf
  sha256_hex payload := by split <;> exact plain_of_all (by decide +kernel)

def fiveKeys : SignerBackend := ⟨fun _ => ["k1", "k2", "k3", "k4", "k5"], fun keyid => keyid⟩

theorem editor_safe : segmentMatches "editor" = true := by decide

/-- The key of `<appId>/stable/linux-x64/1.0/editor.zip`. -/
def editorKey (appId : String) (h : segmentMatches appId = true) : TargetKey where
  appId := appId
  channel := "stable"
  platform := "linux"
  arch := "x64"
  version := "1.0"
  filename := "editor.zip"
  channelKnown := stable_known
  segmentsSafe := by simpa using ⟨h, by decide⟩

def editorInfo : ReleaseInfo where
  version := "1.0"
  versionSafe := by decide
  pctInRange := hundred_inRange

/-- A release is killed after its payload and its role are written; a fresh instance publishes
it again and makes it current. -/
def killedRelease : List (Action String) :=
  [.start fiveKeys, .call .initialise 9, .call (.addApp "editor" false) 9,
    .call (.addRelease (editorKey "editor" editor_safe) "editor 1.0" editorInfo) 2,
    .start fiveKeys,
    .call (.addRelease (editorKey "editor" editor_safe) "editor 1.0" editorInfo) 9,
    .call (.setCurrent (editorKey "editor" editor_safe)) 9]

def lineFeedApp : List (Action String) :=
  [.start fiveKeys, .call .initialise 9, .call (.addApp "editor\n" false) 9,
    .start fiveKeys,
    .call (.addRelease (editorKey "editor\n" (by decide)) "editor 1.0" editorInfo) 9]

/-- At every instant of a run in which no instance is built over a file name with a line feed,
the directory is closed, no versioned file has had two contents, and the timestamp has not
gone back. -/
theorem publication_closed {β : Type} (out : Outside β) {w : World β}
    (hw : ((system out).when fun w a => careful out w a = true).Reachable w) :
    Closed out w.dir ∧ WrittenOnce w.dir ∧ (timestampVersions w.dir).Pairwise (· ≤ ·) := by
  have hsound := ((worldInv_inductive out).holds (fun _ _ => trivial) hw).sound
  exact ⟨hsound.closed, hsound.once, hsound.times⟩

theorem publication_closed_killedRelease :
    ∃ w, System.exec (next textPayloads) killedRelease .empty = some w ∧
      timestampVersions w.dir = [1, 2, 3, 4] ∧ Closed textPayloads w.dir ∧
      WrittenOnce w.dir ∧ (timestampVersions w.dir).Pairwise (· ≤ ·) := by
  let careful' w a := if careful textPayloads w a = true then next textPayloads w a else none
  have hrun : (System.exec careful' killedRelease .empty).map
      (fun w => timestampVersions w.dir) = some [1, 2, 3, 4] := by
    decide +kernel
  obtain ⟨w, hw, hversions⟩ := Option.map_eq_some_iff.mp hrun
  exact ⟨w, System.exec_of_when hw, hversions,
    publication_closed textPayloads (System.reachable_exec_when (.start rfl) hw)⟩

/-- The application's first file, written when it was added and again by the instance whose scan
did not see it. -/
theorem versioned_file_rewritten :
    ∃ w, System.exec (next textPayloads) lineFeedApp .empty = some w ∧
      (system textPayloads).Reachable w ∧ ¬ WrittenOnce w.dir := by
  let role := "app-editor\n"
  let added : Metadata := ⟨.targets ⟨[], none⟩, 1, 6 + 14, ["k1", "k2", "k3", "k4", "k5"]⟩
  let released : Metadata := ⟨.targets ⟨[((editorKey "editor\n" (by decide)).path,
    targetFile textPayloads "editor 1.0" editorInfo)], none⟩, 1, 9 + 14,
    ["k1", "k2", "k3", "k4", "k5"]⟩
  have hrun : (System.exec (next textPayloads) lineFeedApp .empty).map (fun w =>
      decide ((filename role 1, added) ∈ w.dir.history ∧
        (filename role 1, released) ∈ w.dir.history)) = some true := by
    decide +kernel
  obtain ⟨w, hw, hwritten⟩ := Option.map_eq_some_iff.mp hrun
  obtain ⟨hadded, hreleased⟩ := of_decide_eq_true hwritten
  refine ⟨w, hw, System.reachable_exec (.start rfl) hw, fun honce => ?_⟩
  have := honce role 1 added released (by decide) hadded hreleased
  exact absurd this (by decide)

end DistPlatform.Core
