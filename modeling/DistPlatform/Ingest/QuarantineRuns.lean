import DistPlatform.Ingest.Attestation
import DistPlatform.Ingest.Quarantine
import DistPlatform.Library.Process
import DistPlatform.Library.Runs
import DistPlatform.Library.Table

/-!
# The quarantine directory over time (`dist_ingest.quarantine`)

An admission writes a temporary file chunk by chunk while it hashes, removes it when the reader
fails or the cap is passed, and renames it to its digest at the end. The process can be killed
at every write.

## Main definitions

* `Disk` — the quarantine directory and what lies outside it.
* `admit`, `promote`, `discard` — the operations, write by write.
* `Addressed` — what is stored under a digest has it, and fits the cap.
* `Mirrors` — a disk that holds what a `Quarantine` does.
-/

namespace DistPlatform.Ingest

open Runs

/-! ## The directory -/

/-- `files` is the quarantine directory by file name, `elsewhere` the rest by path. -/
structure Disk where
  files : Table String Bytes
  elsewhere : Table String Bytes
  deriving DecidableEq

def Disk.empty : Disk := ⟨[], []⟩

/-- Where a promotion copies to. -/
inductive Destination
  | inside (name : String)
  | outside (path : String)
  deriving DecidableEq

/-- `path`, within the quarantine's root. -/
def fileName (sha256 : String) : String := sha256 ++ ".bin"

/-- `NamedTemporaryFile(suffix=".part")`: a name that no file of the directory has. -/
structure Tempfile where
  stem : Table String Bytes → String
  new : ∀ files : Table String Bytes, files.get (stem files ++ ".part") = none

def Tempfile.name (temp : Tempfile) (files : Table String Bytes) : String :=
  temp.stem files ++ ".part"

namespace Disk

def put (disk : Disk) (name : String) (bytes : Bytes) : Disk :=
  { disk with files := disk.files.put name bytes }

def unlink (disk : Disk) (name : String) : Disk := { disk with files := disk.files.erase name }

/-- `temp.replace(destination)`. -/
def rename (disk : Disk) (name target : String) : Disk :=
  match disk.files.get name with
  | some bytes => (disk.unlink name).put target bytes
  | none => disk

/-- `contains`. -/
def contains (disk : Disk) (sha256 : String) : Bool := (disk.files.get (fileName sha256)).isSome

end Disk

/-! ## The operations -/

/-- Why nothing was promoted. -/
inductive PromoteFailure
  | Missing (sha256 : String)
  | Modified (sha256 actual : String)
  deriving DecidableEq

section Operations

variable (lib : Libraries) (temp : Tempfile) (maxBytes : Nat)

/-- The loop of `admit`, with what it has read so far: that is what the digest and the length
are of, and what the temporary file holds. -/
def transfer (part : String) : Reader → Bytes → Process Disk AdmitFailure Bytes
  | [], read => pure read
  | .error exception :: _, _ => do
    Process.write (Disk.unlink · part)
    Process.raise (.Reader exception)
  | .ok [] :: _, read => pure read
  | .ok chunk :: reader, read =>
    if maxBytes < (read ++ chunk).length then do
      Process.write (Disk.unlink · part)
      Process.raise (.QuarantineError maxBytes)
    else do
      Process.write (Disk.put · part (read ++ chunk))
      transfer part reader (read ++ chunk)

/-- `admit`. -/
def admitFile (source : Reader) : Process Disk AdmitFailure Admitted := do
  let disk ← Process.read
  let part := temp.name disk.files
  Process.write (Disk.put · part [])
  let bytes ← transfer maxBytes part source []
  Process.write (Disk.rename · part (fileName (lib.sha256 bytes)))
  return ⟨lib.sha256 bytes, bytes.length⟩

/-- `promote`: the copy is made beside its destination and renamed. -/
def promote (sha256 : String) (destination : Destination) : Process Disk PromoteFailure Unit := do
  let disk ← Process.read
  let bytes ← Process.lift (match disk.files.get (fileName sha256) with
    | some bytes =>
      if lib.sha256 bytes ≠ sha256 then .error (.Modified sha256 (lib.sha256 bytes)) else .ok bytes
    | none => .error (.Missing sha256))
  match destination with
  | .inside name =>
    let part := temp.name disk.files
    Process.write (Disk.put · part bytes)
    Process.write (Disk.rename · part name)
  | .outside path =>
    let part := temp.name disk.elsewhere
    Process.write fun disk => { disk with elsewhere := disk.elsewhere.put part bytes }
    Process.write fun disk =>
      { disk with elsewhere := (disk.elsewhere.erase part).put path bytes }

/-- `discard`. -/
def discard (sha256 : String) : Process Disk PromoteFailure Unit :=
  Process.write (Disk.unlink · (fileName sha256))

end Operations

/-! ## Calls -/

/-- The calls of an ingest process, each with the writes it gets to make. -/
inductive QuarantineCall
  | admitFile (source : Reader)
  | promote (sha256 : String) (destination : Destination)
  | discard (sha256 : String)

/-- The disk a process leaves, however it ends. -/
def diskAfter {ε α : Type} : Ending Disk ε α → Disk
  | .returned _ disk _ | .raised _ disk _ | .killed disk => disk

section Runs

variable (lib : Libraries) (temp : Tempfile) (maxBytes : Nat)

def QuarantineCall.run (disk : Disk) (budget : Nat) : QuarantineCall → Disk
  | .admitFile source => diskAfter (Ingest.admitFile lib temp maxBytes source disk budget)
  | .promote sha256 destination => diskAfter (Ingest.promote lib temp sha256 destination disk budget)
  | .discard sha256 => diskAfter (Ingest.discard sha256 disk budget)

/-- The destination is no artifact of the quarantine, or the promoted one. -/
def Destination.Apart (sha256 : String) : Destination → Prop
  | .inside name => ∀ other, name = fileName other → other = sha256
  | .outside _ => True

/-- A promotion goes out of the quarantine, or to where the artifact is already. -/
def QuarantineCall.Apart : QuarantineCall → Prop
  | .promote sha256 destination => destination.Apart sha256
  | _ => True

def nextCall (disk : Disk) (call : QuarantineCall × Nat) : Option Disk :=
  some (call.1.run lib temp maxBytes disk call.2)

/-- One call after the other, over a directory that starts empty. -/
def calls : System Disk (QuarantineCall × Nat) := .ofNext .empty (nextCall lib temp maxBytes)

end Runs

/-! ## What the directory keeps -/

/-- What is stored under a digest has it, and fits the cap. -/
def Addressed (lib : Libraries) (maxBytes : Nat) (disk : Disk) : Prop :=
  ∀ sha256 bytes, disk.files.get (fileName sha256) = some bytes →
    lib.sha256 bytes = sha256 ∧ bytes.length ≤ maxBytes

/-- The disk holds what the quarantine does, file by file. -/
structure Mirrors (disk : Disk) (q : Quarantine) : Prop where
  files : ∀ sha256, disk.files.get (fileName sha256) = q.read sha256

section Steps

variable {lib : Libraries} {temp : Tempfile} {maxBytes : Nat} {disk disk' : Disk}

theorem fileName_injective {d d' : String} (h : fileName d = fileName d') : d = d' := by
  simpa [fileName, ← String.toList_inj] using h

/-- A temporary file is no artifact. -/
theorem part_ne_fileName (files : Table String Bytes) (sha256 : String) :
    fileName sha256 ≠ temp.name files := by
  intro heq
  have htext := congrArg (fun name => name.toList.reverse.head?) heq
  simp [fileName, Tempfile.name] at htext

/-- The disk while the temporary file holds what was read. -/
theorem get_put_part (files : Table String Bytes) (bytes : Bytes) (sha256 : String) :
    (disk.put (temp.name files) bytes).files.get (fileName sha256) =
      disk.files.get (fileName sha256) :=
  Table.get_put_of_ne _ _ (part_ne_fileName files sha256)

theorem unlink_put (name : String) (bytes : Bytes) (hnew : disk.files.get name = none) :
    (disk.put name bytes).unlink name = disk := by
  unfold Disk.put Disk.unlink
  rw [Table.erase_put, Table.erase_of_get_none hnew]

theorem put_put_disk (name : String) (bytes bytes' : Bytes) :
    (disk.put name bytes).put name bytes' = disk.put name bytes' := by
  unfold Disk.put
  rw [Table.put_put]

theorem rename_put (name target : String) (bytes : Bytes) (hnew : disk.files.get name = none) :
    (disk.put name bytes).rename name target = disk.put target bytes := by
  rw [Disk.rename, Disk.put, Table.get_put_self]
  exact congrArg (Disk.put · target bytes) (unlink_put name bytes hnew)

/-- The loop leaves what it read in the temporary file, and no file where it raises. -/
theorem transfer_ends {part : String} (hnew : disk.files.get part = none) (source : Reader)
    (read : Bytes) :
    (transfer maxBytes part source read).Ends (disk.put part read)
      (fun bytes disk' => readAll maxBytes source read = .ok bytes ∧ disk' = disk.put part bytes)
      (fun e disk' => readAll maxBytes source read = .error e ∧ disk' = disk)
      (fun disk' => ∃ bytes, disk' = disk.put part bytes) := by
  induction source generalizing read with
  | nil => exact .pure ⟨rfl, rfl⟩
  | cons answer source ih =>
    match answer with
    | .error exception =>
      refine .bind (Q := fun _ disk' => disk' = disk) (.write ⟨read, rfl⟩ (unlink_put _ _ hnew)) ?_
      rintro - disk' rfl
      exact .raise ⟨rfl, rfl⟩
    | .ok [] => exact .pure ⟨rfl, rfl⟩
    | .ok (byte :: chunk) =>
      simp only [transfer, readAll]
      split
      · refine .bind (Q := fun _ disk' => disk' = disk) (.write ⟨read, rfl⟩ (unlink_put _ _ hnew)) ?_
        rintro - disk' rfl
        exact .raise ⟨rfl, rfl⟩
      · refine .bind (Q := fun _ disk' => disk' = disk.put part (read ++ byte :: chunk))
          (.write ⟨read, rfl⟩ (put_put_disk _ _ _)) ?_
        rintro - disk' rfl
        exact ih _

/-- An admission stores what was read under its digest, and where it raises it leaves the disk as
it was. A killed one leaves a temporary file at most. -/
theorem admit_ends (source : Reader) :
    (admitFile lib temp maxBytes source).Ends disk
      (fun admitted disk' => ∃ bytes, readAll maxBytes source [] = .ok bytes ∧
        admitted = ⟨lib.sha256 bytes, bytes.length⟩ ∧
        disk' = disk.put (fileName admitted.sha256) bytes)
      (fun e disk' => readAll maxBytes source [] = .error e ∧ disk' = disk)
      (fun disk' => disk' = disk ∨ ∃ bytes, disk' = disk.put (temp.name disk.files) bytes) := by
  have hnew : disk.files.get (temp.name disk.files) = none := temp.new disk.files
  refine .read_bind (.bind (Q := fun _ disk' => disk' = disk.put (temp.name disk.files) [])
    (.write (.inl rfl) rfl) ?_)
  rintro - disk₁ rfl
  refine .bind ((transfer_ends hnew source []).mono (fun _ _ h => h) (fun _ _ h => h)
    fun _ h => .inr h) ?_
  rintro bytes disk₂ ⟨hread, rfl⟩
  refine .bind (Q := fun _ disk' => disk' = disk.put (fileName (lib.sha256 bytes)) bytes)
    (.write (.inr ⟨bytes, rfl⟩) (rename_put _ _ _ hnew)) ?_
  rintro - disk₃ rfl
  exact .pure ⟨bytes, hread, rfl, rfl⟩

/-! ## One call -/

theorem length_le_of_readAll {source : Reader} {read bytes : Bytes} (hread : read.length ≤ maxBytes)
    (h : readAll maxBytes source read = .ok bytes) : bytes.length ≤ maxBytes := by
  induction source generalizing read with
  | nil =>
    obtain rfl := Except.ok.inj h
    exact hread
  | cons answer source ih =>
    match answer with
    | .error exception => simp [readAll] at h
    | .ok [] =>
      obtain rfl := Except.ok.inj h
      exact hread
    | .ok (byte :: chunk) =>
      simp only [readAll] at h
      split at h
      · cases h
      next hfits => exact ih (Nat.not_lt.mp hfits) h

theorem Addressed.put_part (h : Addressed lib maxBytes disk) (files : Table String Bytes)
    (bytes : Bytes) : Addressed lib maxBytes (disk.put (temp.name files) bytes) := by
  intro sha256 stored hget
  exact h sha256 stored (by rwa [get_put_part] at hget)

/-- Bytes that fit may be stored under their own digest. -/
theorem Addressed.put (h : Addressed lib maxBytes disk) {name : String} {bytes : Bytes}
    (hname : ∀ sha256, name = fileName sha256 → lib.sha256 bytes = sha256)
    (hlength : bytes.length ≤ maxBytes) : Addressed lib maxBytes (disk.put name bytes) := by
  intro sha256 stored hget
  rw [Disk.put, Table.get_put] at hget
  split at hget
  next heq =>
    obtain rfl := Option.some.inj hget
    exact ⟨hname sha256 heq.symm, hlength⟩
  · exact h sha256 stored hget

theorem Addressed.unlink (h : Addressed lib maxBytes disk) (name : String) :
    Addressed lib maxBytes (disk.unlink name) := by
  intro sha256 stored hget
  rw [Disk.unlink, Table.get_erase] at hget
  split at hget
  · cases hget
  · exact h sha256 stored hget

theorem diskAfter_of_ends {ε α : Type} {m : Process Disk ε α} {P : Disk → Prop}
    (h : m.Ends disk (fun _ => P) (fun _ => P) P) (budget : Nat) :
    P (diskAfter (m disk budget)) := by
  have hend := h budget
  cases hm : m disk budget with
  | returned a disk' rest => rwa [hm] at hend
  | raised e disk' rest => rwa [hm] at hend
  | killed disk' => rwa [hm] at hend

theorem admit_addressed (h : Addressed lib maxBytes disk) (source : Reader) :
    (admitFile lib temp maxBytes source).Ends disk (fun _ => Addressed lib maxBytes)
      (fun _ => Addressed lib maxBytes) (Addressed lib maxBytes) := by
  refine (admit_ends source).mono ?_ ?_ ?_
  · rintro - disk' ⟨bytes, hread, rfl, rfl⟩
    exact h.put (fun _ heq => fileName_injective heq)
      (length_le_of_readAll (Nat.zero_le _) hread)
  · rintro e disk' ⟨-, rfl⟩
    exact h
  · rintro disk' (rfl | ⟨bytes, rfl⟩)
    · exact h
    · exact h.put_part _ _

theorem promote_addressed (h : Addressed lib maxBytes disk) {sha256 : String}
    {destination : Destination} (hapart : destination.Apart sha256) :
    (promote lib temp sha256 destination).Ends disk (fun _ => Addressed lib maxBytes)
      (fun _ => Addressed lib maxBytes) (Addressed lib maxBytes) := by
  refine .read_bind (.lift_bind (fun _ _ => h) fun bytes hbytes => ?_)
  split at hbytes
  next stored hstored =>
    split at hbytes
    · cases hbytes
    next hsha =>
      obtain rfl := Except.ok.inj hbytes
      obtain ⟨hdigest, hlength⟩ := h sha256 stored hstored
      cases destination with
      | inside name =>
        refine .bind (Q := fun _ disk' => disk' = disk.put (temp.name disk.files) stored)
          (.write h rfl) ?_
        rintro - disk' rfl
        refine .write (h.put_part _ _) ?_
        have hnew : disk.files.get (temp.name disk.files) = none := temp.new disk.files
        rw [rename_put _ _ _ hnew]
        refine h.put (fun other hname => ?_) hlength
        rw [hdigest, hapart other hname]
      | outside path =>
        refine .bind (Q := fun _ disk' => disk'.files = disk.files) (.write h rfl) ?_
        intro _ disk' hfiles
        have hsame : Addressed lib maxBytes disk' := by
          rw [Addressed, hfiles]
          exact h
        exact .write hsame hsame
  · cases hbytes

theorem run_addressed (h : Addressed lib maxBytes disk) {call : QuarantineCall}
    (hapart : call.Apart) (budget : Nat) :
    Addressed lib maxBytes (call.run lib temp maxBytes disk budget) := by
  cases call with
  | admitFile source => exact diskAfter_of_ends (admit_addressed h source) budget
  | promote sha256 destination => exact diskAfter_of_ends (promote_addressed h hapart) budget
  | discard sha256 =>
    exact diskAfter_of_ends (m := discard sha256) (.write h (h.unlink _)) budget

/-- An admission to the directory is one to the quarantine that it mirrors. -/
theorem admit_mirrors {q : Quarantine} (h : Mirrors disk q) (hmax : q.maxBytes = maxBytes)
    (source : Reader) :
    (admitFile lib temp maxBytes source).Ends disk
      (fun admitted disk' => ∃ q', q.admitStream lib source = .ok (admitted, q') ∧ Mirrors disk' q')
      (fun e disk' => q.admitStream lib source = .error e ∧ Mirrors disk' q)
      (fun disk' => Mirrors disk' q) := by
  refine (admit_ends source).mono ?_ ?_ ?_
  · rintro - disk' ⟨bytes, hread, rfl, rfl⟩
    refine ⟨q.put (lib.sha256 bytes) bytes, ?_, ⟨fun sha256 => ?_⟩⟩
    · rw [Quarantine.admitStream, hmax, hread]
    · change (disk.put (fileName (lib.sha256 bytes)) bytes).files.get (fileName sha256) =
        (Table.put q.stored (lib.sha256 bytes) bytes).get sha256
      rw [Disk.put, Table.get_put, Table.get_put]
      by_cases heq : sha256 = lib.sha256 bytes
      · rw [if_pos heq, if_pos (congrArg fileName heq)]
      · rw [if_neg heq, if_neg (fun hname => heq (fileName_injective hname))]
        exact h.files sha256
  · rintro e disk' ⟨hread, rfl⟩
    rw [Quarantine.admitStream, hmax, hread]
    exact ⟨rfl, h⟩
  · rintro disk' (rfl | ⟨bytes, rfl⟩)
    · exact h
    · exact ⟨fun sha256 => by rw [get_put_part, h.files]⟩

end Steps

/-! ## A directory with an empty artifact -/

/-- All names of the directory in one: longer than each of them. -/
def longName (files : Table String Bytes) : String := String.ofList (files.flatMap (·.1.toList))

theorem longName_new (files : Table String Bytes) : files.get (longName files ++ ".part") = none := by
  rw [Table.get, List.lookup_eq_none_iff]
  rintro ⟨name, bytes⟩ hfile
  rw [bne_iff_ne]
  rintro rfl
  obtain ⟨before, after, hfiles⟩ := List.append_of_mem hfile
  have hlength : (longName files ++ ".part").toList.length ≤ (longName files).toList.length := by
    conv_rhs => rw [longName, hfiles, String.toList_ofList]
    simp only [List.flatMap_append, List.flatMap_cons, List.length_append]
    omega
  rw [String.toList_append, List.length_append] at hlength
  exact absurd hlength (by simp)

def longNames : Tempfile := ⟨longName, longName_new⟩

/-- An empty artifact is admitted, and copied out of the quarantine or over another name. -/
def copied (destination : Destination) : List (QuarantineCall × Nat) :=
  [(.admitFile [], 2), (.promote emptySha256 destination, 2)]

/-! ## Every sequence of calls -/

/-- What a store of artifacts owes its callers at one moment: what it contains has the digest it
is asked for and fits, an admission says what it stored, and a refused one leaves no trace. -/
structure Keeps (lib : Libraries) (temp : Tempfile) (maxBytes : Nat) (disk : Disk) : Prop where
  contains : ∀ sha256, disk.contains sha256 = true → ∃ bytes,
    disk.files.get (fileName sha256) = some bytes ∧ lib.sha256 bytes = sha256 ∧
      bytes.length ≤ maxBytes
  admitted : ∀ source budget admitted disk' rest,
    admitFile lib temp maxBytes source disk budget = .returned admitted disk' rest → ∃ bytes,
      disk'.files.get (fileName admitted.sha256) = some bytes ∧
        admitted.sha256 = lib.sha256 bytes ∧ admitted.length = bytes.length
  refused : ∀ source budget e disk' rest,
    admitFile lib temp maxBytes source disk budget = .raised e disk' rest → disk' = disk

theorem Addressed.keeps {lib : Libraries} {temp : Tempfile} {maxBytes : Nat} {disk : Disk}
    (h : Addressed lib maxBytes disk) : Keeps lib temp maxBytes disk where
  contains sha256 hcontains := by
    obtain ⟨bytes, hget⟩ := Option.isSome_iff_exists.mp hcontains
    exact ⟨bytes, hget, h sha256 bytes hget⟩
  admitted source budget admitted disk' rest hreturned := by
    have hend := (admit_ends source : (admitFile lib temp maxBytes source).Ends disk _ _ _) budget
    rw [hreturned] at hend
    obtain ⟨bytes, -, rfl, rfl⟩ := hend
    exact ⟨bytes, Table.get_put_self _ _ _, rfl, rfl⟩
  refused source budget e disk' rest hraised := by
    have hend := (admit_ends source : (admitFile lib temp maxBytes source).Ends disk _ _ _) budget
    rw [hraised] at hend
    exact hend.2

/-- After every sequence of admissions, discards and promotions out of the quarantine, killed
ones among them, the store keeps what it owes. -/
theorem keeps_of_apart {lib : Libraries} {temp : Tempfile} {maxBytes : Nat} {disk : Disk}
    (h : ((calls lib temp maxBytes).when fun _ call => call.1.Apart).Reachable disk) :
    Keeps lib temp maxBytes disk := by
  have hinductive : ((calls lib temp maxBytes).when fun _ call => call.1.Apart).Inductive
      (fun _ => True) (Addressed lib maxBytes) := by
    refine ⟨?_, ?_⟩
    · rintro disk rfl sha256 bytes hget
      cases hget
    · rintro disk call disk' - hdisk ⟨hapart, hstep⟩
      obtain rfl := Option.some.inj hstep
      exact run_addressed hdisk hapart call.2
  exact (hinductive.holds (fun _ _ => trivial) h).keeps

/-- A digest that tells the artifact from its parts. -/
def builtDigests : Libraries :=
  { editorLibraries with sha256 := fun bytes => if bytes = builtArtifact then builtSha256 else "" }

/-- A killed admission, one that returns, one that a reader breaks off, and a promotion. -/
def builtCalls : List (QuarantineCall × Nat) :=
  [(.admitFile builtStream, 2), (.admitFile builtStream, 9),
    (.admitFile (builtStream.take 1 ++ [.error "OSError"]), 9),
    (.promote builtSha256 (.outside "/srv/targets/editor.bin"), 2)]

theorem keeps_of_apart_copied :
    ∃ disk, System.exec (nextCall builtDigests longNames 16) builtCalls .empty = some disk ∧
      disk.contains builtSha256 = true ∧
      disk.elsewhere = [("/srv/targets/editor.bin", builtArtifact)] ∧
      Keeps builtDigests longNames 16 disk := by
  have hrun : (System.exec (nextCall builtDigests longNames 16) builtCalls .empty).any (fun disk =>
      disk.contains builtSha256 ∧
        disk.elsewhere = [("/srv/targets/editor.bin", builtArtifact)]) = true := by
    decide +kernel
  obtain ⟨disk, hdisk, hheld⟩ := (Option.any_eq_true _ _).mp hrun
  obtain ⟨hcontains, helsewhere⟩ := of_decide_eq_true hheld
  refine ⟨disk, hdisk, hcontains, helsewhere,
    keeps_of_apart (System.reachable_exec_all ?_ (.start rfl) hdisk)⟩
  intro call hcall _
  simp only [builtCalls, List.mem_cons, List.not_mem_nil, or_false] at hcall
  obtain rfl | rfl | rfl | rfl := hcall <;> exact trivial

/-- A promotion to the name of another artifact: the store contains it, with other bytes. -/
theorem promoted_into_quarantine :
    ∃ disk, (calls editorLibraries longNames 16).Reachable disk ∧
      disk.contains "other" = true ∧ ¬ Keeps editorLibraries longNames 16 disk := by
  have hrun : (System.exec (nextCall editorLibraries longNames 16)
      (copied (.inside (fileName "other"))) .empty).map (·.contains "other") = some true := by
    decide +kernel
  obtain ⟨disk, hdisk, hcontains⟩ := Option.map_eq_some_iff.mp hrun
  refine ⟨disk, System.reachable_exec (.start rfl) hdisk, hcontains, fun hkeeps => ?_⟩
  obtain ⟨bytes, -, hsha, -⟩ := hkeeps.contains "other" hcontains
  have hempty : emptySha256 = "other" := hsha
  exact absurd hempty (by decide +kernel)

end DistPlatform.Ingest
