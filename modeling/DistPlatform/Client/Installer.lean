import DistPlatform.Library.Fallible
import DistPlatform.Library.JsonText
import DistPlatform.Library.Runs
import DistPlatform.Library.Table
import Mathlib.Data.UInt

/-!
# A/B slot installation (`dist-core-rs/src/install.rs`)

Every operation of the installer is a sequence of file-system steps, decided from the disk as
the operation finds it. A process killed in the middle has made a prefix of them.

## Main definitions

* `Pointer`, `Health` — the pointer file, with its serde form.
* `Disk`, `FsStep` — the installation directory and the single steps on it.
* `Op`, `plan` — the operations of `Installer`, as step sequences.
* `system` — operations one after the other, each possibly killed.
-/

namespace DistPlatform.Install

open Runs (System)

def MAX_LAUNCH_ATTEMPTS : UInt32 := 3

/-! ## The pointer -/

inductive Health
  | Probation
  | Confirmed
  deriving DecidableEq, Repr

structure Pointer where
  active : String
  previous : Option String
  health : Health
  attempts : UInt32
  deriving DecidableEq, Repr

namespace Pointer

def first (version : String) : Pointer := ⟨version, none, .Confirmed, 0⟩

/-- `Serialize`, with the variants of `Health` in snake case. -/
def toJson (p : Pointer) : Json := .obj [
  ("active", .str p.active),
  ("previous", (p.previous.map Json.str).getD .null),
  ("health", .str (match p.health with
    | .Probation => "probation"
    | .Confirmed => "confirmed")),
  ("attempts", .int p.attempts.toNat)]

/-- A missing or null `previous` is `None`; anything but a string is refused. -/
def previousOfJson : Option Json → Option (Option String)
  | none | some .null => some none
  | some (.str s) => some (some s)
  | some _ => none

def healthOfJson : String → Option Health
  | "probation" => some .Probation
  | "confirmed" => some .Confirmed
  | _ => none

def u32OfJson : Json → Option UInt32
  | .int i => if 0 ≤ i ∧ i.toNat < UInt32.size then some (UInt32.ofNat i.toNat) else none
  | _ => none

/-- `Deserialize`, from an object. -/
def ofJson (value : Json) : Option Pointer := do
  let active ← value.getStr? "active"
  let previous ← previousOfJson (value.get? "previous")
  let health ← (value.getStr? "health").bind healthOfJson
  let attempts ← (value.get? "attempts").bind u32OfJson
  return ⟨active, previous, health, attempts⟩

theorem ofJson_toJson (p : Pointer) : ofJson p.toJson = some p := by
  obtain ⟨active, previous, health, attempts⟩ := p
  have hattempts : u32OfJson (.int attempts.toNat) = some attempts := by
    have hlt : ((attempts.toNat : Int)).toNat < UInt32.size := attempts.toNat_lt
    rw [u32OfJson, if_pos ⟨Int.natCast_nonneg _, hlt⟩, Int.toNat_natCast, UInt32.ofNat_toNat]
  cases previous <;> cases health <;>
    simp [ofJson, toJson, Json.get?, Json.getStr?, Json.str?, previousOfJson, healthOfJson,
      hattempts, List.lookup_cons]

theorem distinctNames_toJson (p : Pointer) : p.toJson.all Json.distinctNames = true := by
  obtain ⟨active, previous, health, attempts⟩ := p
  cases previous <;> cases health <;>
    simp [toJson, Json.all, Json.allMembers, Json.distinctNames]

end Pointer

/-- The text form of JSON (`serde_json`), with what the installer relies on: a value whose objects
have no name twice is read back. -/
structure JsonText (β : Type) where
  print : Json → β
  parse : β → Option Json
  parse_print : ∀ value : Json, value.all Json.distinctNames = true →
    parse (print value) = some value

/-! ## The installation directory -/

inductive InstallError
  | NotInstalled
  | CorruptPointer
  | MissingSlot (version : String)
  | InvalidVersion (version : String)
  | NoPreviousVersion
  deriving DecidableEq, Repr

/-- `β` is the content of a file, `ε` an entry of a slot. `temp` is `current.json.tmp`, once it
is completely written. -/
structure Disk (β ε : Type) where
  pointer : Option β
  temp : Option β
  slots : Table String (List ε)
  staging : Table String (List ε)
  deriving DecidableEq, Repr

/-- One step on the file system, which keeps names as they are: slots are the same directory only
under the same name, letter by letter. -/
inductive FsStep (β ε : Type)
  | createDirs
  | createStaging (version : String)
  | removeStagingEntry (version : String) (entry : ε)
  | removeStaging (version : String)
  | removeSlotEntry (version : String) (entry : ε)
  | removeSlot (version : String)
  | renameToSlot (version : String)
  | openTemp
  | writeTemp (content : β)
  | renameTemp
  deriving DecidableEq, Repr

section Steps

variable {β ε : Type} [DecidableEq ε]

def removeEntry (dirs : Table String (List ε)) (version : String) (entry : ε) :
    Table String (List ε) :=
  match dirs.get version with
  | none => dirs
  | some entries => dirs.put version (entries.erase entry)

def FsStep.exec (disk : Disk β ε) : FsStep β ε → Disk β ε
  | .createDirs => disk
  | .createStaging version => { disk with staging := disk.staging.put version [] }
  | .removeStagingEntry version entry =>
    { disk with staging := removeEntry disk.staging version entry }
  | .removeStaging version => { disk with staging := disk.staging.erase version }
  | .removeSlotEntry version entry =>
    { disk with slots := removeEntry disk.slots version entry }
  | .removeSlot version => { disk with slots := disk.slots.erase version }
  | .renameToSlot version => match disk.staging.get version with
    | none => disk
    | some entries =>
      { disk with
        slots := disk.slots.put version entries
        staging := disk.staging.erase version }
  | .openTemp => { disk with temp := none }
  | .writeTemp content => { disk with temp := some content }
  | .renameTemp => match disk.temp with
    | none => disk
    | some content => { disk with pointer := some content, temp := none }

end Steps

/-! ## The operations -/

/-- `check_version`. -/
def validVersion (version : String) : Bool :=
  !(version == "" || version == "." || version == ".." || version.toList.contains '/' ||
    version.toList.contains '\\' || version.toList.contains ':' ||
    version.toList.contains (Char.ofNat 0))

inductive Op
  | stage (version : String)
  | commitSlot (version : String)
  | activate (version : String)
  | confirmHealthy
  | beginLaunch
  | rollback
  | prune
  | cleanStaging
  deriving DecidableEq, Repr

/-- The orders the operating system lists a directory in. -/
structure DirOrder (ε : Type) where
  entries : List ε → List ε
  slots : List String → List String

section Ops

variable {β ε : Type} (text : JsonText β)

/-- `pointer()`. -/
def readPointer (disk : Disk β ε) : Except InstallError Pointer :=
  match disk.pointer with
  | none => .error .NotInstalled
  | some raw => match (text.parse raw).bind Pointer.ofJson with
    | none => .error .CorruptPointer
    | some pointer => .ok pointer

theorem readPointer_congr {text : JsonText β} {d d' : Disk β ε} (h : d'.pointer = d.pointer) :
    readPointer text d' = readPointer text d := by
  simp only [readPointer, h]

def hasSlot (disk : Disk β ε) (version : String) : Bool := (disk.slots.get version).isSome

/-- The pointer `activate` writes. -/
def activated (disk : Disk β ε) (version : String) : Except InstallError Pointer :=
  if !validVersion version then .error (.InvalidVersion version)
  else if !hasSlot disk version then .error (.MissingSlot version)
  else match readPointer text disk with
    | .ok current =>
      if current.active = version then .ok { current with health := .Confirmed, attempts := 0 }
      else .ok ⟨version, some current.active, .Probation, 0⟩
    | .error .NotInstalled => .ok (Pointer.first version)
    | .error e => .error e

/-- The pointer `rollback` writes. -/
def rolledBack (disk : Disk β ε) : Except InstallError Pointer :=
  match readPointer text disk with
  | .error e => .error e
  | .ok pointer => match pointer.previous with
    | none => .error .NoPreviousVersion
    | some previous =>
      if hasSlot disk previous then .ok ⟨previous, none, .Confirmed, 0⟩
      else .error (.MissingSlot previous)

/-- `u32::saturating_add(1)`. -/
def saturatingSucc (n : UInt32) : UInt32 := if n = 2 ^ 32 - 1 then n else n + 1

/-- The pointer `begin_launch` writes: the attempt, or the rollback once they are used up. -/
def launched (disk : Disk β ε) : Except InstallError Pointer :=
  match readPointer text disk with
  | .error e => .error e
  | .ok pointer =>
    if pointer.health = .Probation ∧ MAX_LAUNCH_ATTEMPTS ≤ pointer.attempts then
      rolledBack text disk
    else .ok { pointer with attempts := saturatingSucc pointer.attempts }

/-- The pointer `confirm_healthy` writes. -/
def confirmed (disk : Disk β ε) : Except InstallError Pointer :=
  match readPointer text disk with
  | .error e => .error e
  | .ok pointer => .ok { pointer with health := .Confirmed, attempts := 0 }

/-- The pointer an operation would write, for the four that write one. -/
def newPointer (disk : Disk β ε) : Op → Option (Except InstallError Pointer)
  | .activate version => some (activated text disk version)
  | .confirmHealthy => some (confirmed text disk)
  | .beginLaunch => some (launched text disk)
  | .rollback => some (rolledBack text disk)
  | _ => none

section

variable {text : JsonText β} {disk : Disk β ε} {pointer : Pointer}

theorem activated_active {version : String}
    (h : activated text disk version = .ok pointer) :
    pointer.active = version ∧ hasSlot disk version := by
  simp only [activated] at h
  split at h
  · cases h
  · split at h
    · cases h
    next hslot =>
      refine ⟨?_, by simpa using hslot⟩
      split at h
      next current hcurrent =>
        split at h
        next hsame => exact Except.ok.inj h ▸ hsame
        · exact Except.ok.inj h ▸ rfl
      · exact Except.ok.inj h ▸ rfl
      · cases h

theorem rolledBack_active
    (h : rolledBack text disk = .ok pointer) : hasSlot disk pointer.active := by
  simp only [rolledBack] at h
  split at h
  · cases h
  · split at h
    · cases h
    next previous hprevious =>
      split at h
      next hslot => exact Except.ok.inj h ▸ hslot
      · cases h

/-- The pointer an operation writes keeps the active version, or names a slot it found. -/
theorem newPointer_active {op : Op}
    (h : newPointer text disk op = some (.ok pointer)) :
    hasSlot disk pointer.active ∨
      ∃ old, readPointer text disk = .ok old ∧ old.active = pointer.active := by
  cases op with
  | activate version =>
    obtain ⟨hactive, hslot⟩ := activated_active (Option.some.inj h)
    exact .inl (hactive ▸ hslot)
  | confirmHealthy =>
    have h := Option.some.inj h
    simp only [confirmed] at h
    split at h
    · cases h
    next old hold =>
      cases h
      exact .inr ⟨old, hold, rfl⟩
  | beginLaunch =>
    have h := Option.some.inj h
    simp only [launched] at h
    split at h
    · cases h
    next old hold =>
      split at h
      · exact .inl (rolledBack_active h)
      · cases h
        exact .inr ⟨old, hold, rfl⟩
  | rollback => exact .inl (rolledBack_active (Option.some.inj h))
  | stage | commitSlot | prune | cleanStaging => cases h

end

/-- `write_pointer`. -/
def writePointer (pointer : Pointer) : List (FsStep β ε) :=
  [.createDirs, .openTemp, .writeTemp (text.print pointer.toJson), .renameTemp]

/-- `remove_dir_all` of a slot: its entries one by one, then the directory. -/
def removeSlotAll (order : DirOrder ε) (version : String) (entries : List ε) :
    List (FsStep β ε) :=
  (order.entries entries).map (.removeSlotEntry version) ++ [.removeSlot version]

def removeStagingAll (order : DirOrder ε) (version : String) (entries : List ε) :
    List (FsStep β ε) :=
  (order.entries entries).map (.removeStagingEntry version) ++ [.removeStaging version]

def stageSteps (order : DirOrder ε) (disk : Disk β ε) (version : String) : List (FsStep β ε) :=
  (match disk.staging.get version with
    | some entries => removeStagingAll order version entries
    | none => []) ++ [.createStaging version]

/-- `commit_slot` past its checks: an existing slot is removed, then the rename. -/
def commitSteps (order : DirOrder ε) (disk : Disk β ε) (version : String) :
    List (FsStep β ε) :=
  .createDirs :: ((match disk.slots.get version with
    | some entries => removeSlotAll order version entries
    | none => []) ++ [.renameToSlot version])

/-- The slots `prune` removes. -/
def prunable (order : DirOrder ε) (disk : Disk β ε) (pointer : Pointer) : List String :=
  (order.slots (disk.slots.map (·.1))).filter fun name =>
    !(name == pointer.active || some name == pointer.previous)

def pruneSteps (order : DirOrder ε) (disk : Disk β ε) (pointer : Pointer) :
    List (FsStep β ε) :=
  (prunable order disk pointer).flatMap fun name =>
    removeSlotAll order name ((disk.slots.get name).getD [])

def cleanSteps (order : DirOrder ε) (disk : Disk β ε) : List (FsStep β ε) :=
  disk.staging.flatMap fun (version, entries) => removeStagingAll order version entries

/-- The steps of an operation that refuses are none; `Except` says why it refused. -/
def plan (order : DirOrder ε) (disk : Disk β ε) (op : Op) :
    Except InstallError (List (FsStep β ε)) :=
  match op with
  | .stage version =>
    if validVersion version then .ok (stageSteps order disk version)
    else .error (.InvalidVersion version)
  | .commitSlot version =>
    if !validVersion version then .error (.InvalidVersion version)
    else if (disk.staging.get version).isNone then .error (.MissingSlot version)
    else .ok (commitSteps order disk version)
  | .prune => match readPointer text disk with
    | .error e => .error e
    | .ok pointer => .ok (pruneSteps order disk pointer)
  | .cleanStaging => .ok (cleanSteps order disk)
  | op => match newPointer text disk op with
    | some (.ok pointer) => .ok (writePointer text pointer)
    | some (.error e) => .error e
    | none => .ok []

theorem plan_commitSlot {text : JsonText β} {order : DirOrder ε} {disk : Disk β ε}
    {version : String} {steps : List (FsStep β ε)}
    (h : plan text order disk (.commitSlot version) = .ok steps) :
    (disk.staging.get version).isSome ∧ commitSteps order disk version = steps := by
  simp only [plan] at h
  split at h
  · cases h
  · split at h
    · cases h
    next hstaged => exact ⟨by simpa [Option.isSome_iff_ne_none] using hstaged, Except.ok.inj h⟩

/-- The slot `begin_launch` hands to the launcher, after it wrote the pointer. -/
def launchResult (disk : Disk β ε) : Except InstallError String :=
  match launched text disk with
  | .error e => .error e
  | .ok pointer =>
    if hasSlot disk pointer.active then .ok pointer.active
    else .error (.MissingSlot pointer.active)

end Ops

end DistPlatform.Install
