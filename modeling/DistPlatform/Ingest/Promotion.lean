import DistPlatform.Ingest.QuarantineRuns

/-!
# A promotion from one open to the next (`Quarantine.promote`)

The quarantined file is opened twice: once to check its digest and once to copy it beside its
destination. Each open finds what the file then holds, and every access may raise.

## Main definitions

* `Accesses` — what the accesses of a promotion answer.
* `promoteFrom` — `promote`, access by access.
* `PromotesChecked` — what is published has the digest, and a promotion that raises leaves the
  destination alone.
-/

namespace DistPlatform.Ingest

open Fallible

/-! ## The accesses -/

/-- Why `promote` raises. -/
inductive PromotionError
  | QuarantineError (reason : PromoteFailure)
  | OSError (exception : String)
  deriving DecidableEq

/-- What the accesses answer, in the order they are made; an exception where one raises. -/
structure Accesses where
  isFile : Bool
  /-- The first open, and its reads. -/
  checked : Except String Reader
  mkdir : Option String
  /-- `NamedTemporaryFile`. -/
  create : Option String
  /-- The second open, and the passes of `copyfileobj`: a chunk that is read and written, or what
  its read or its write raises. -/
  copied : Except String Reader
  close : Option String
  replace : Option String

/-- An access of which only the exception matters. -/
def attempt : Option String → Except PromotionError Unit
  | none => .ok ()
  | some exception => .error (.OSError exception)

/-- The bytes up to the first empty chunk. -/
def readToEnd : Reader → Except PromotionError Bytes
  | [] => .ok []
  | .error exception :: _ => .error (.OSError exception)
  | .ok [] :: _ => .ok []
  | .ok chunk :: reader => (readToEnd reader).map (chunk ++ ·)

def opened (found : Except String Reader) : Except PromotionError Reader :=
  found.mapError .OSError

namespace Accesses

variable (acc : Accesses)

/-- The check of the digest. -/
def check (lib : Libraries) (sha256 : String) : Except PromotionError Unit := do
  ensure (acc.isFile = true) (.QuarantineError (.Missing sha256))
  let reader ← opened acc.checked
  let bytes ← readToEnd reader
  ensure (lib.sha256 bytes = sha256) (.QuarantineError (.Modified sha256 (lib.sha256 bytes)))

/-- All that comes before the temporary file. -/
def begins (lib : Libraries) (sha256 : String) : Except PromotionError Unit := do
  acc.check lib sha256
  attempt acc.mkdir
  attempt acc.create

/-- The bytes that the second open delivers, where nothing raises any more. -/
def delivers : Except PromotionError Bytes := do
  let reader ← opened acc.copied
  let bytes ← readToEnd reader
  attempt acc.close
  attempt acc.replace
  return bytes

end Accesses

/-! ## The operation -/

/-- The directory of the destination, by file name. -/
abbrev Directory := Table String Bytes

/-- `copyfileobj`, with what it has written so far. -/
def copyfileobj (part : String) : Reader → Bytes → Process Directory PromotionError Unit
  | [], _ => pure ()
  | .error exception :: _, _ => Process.raise (.OSError exception)
  | .ok [] :: _, _ => pure ()
  | .ok chunk :: reader, written => do
    Process.write (Table.put · part (written ++ chunk))
    copyfileobj part reader (written ++ chunk)

/-- `temp.replace(destination)`. -/
def replaced (part destination : String) (directory : Directory) : Directory :=
  match directory.get part with
  | some bytes => (directory.erase part).put destination bytes
  | none => directory

/-- `promote`. Where the copy raises, the temporary file stays. -/
def promoteFrom (lib : Libraries) (temp : Tempfile) (acc : Accesses) (sha256 destination : String) :
    Process Directory PromotionError Unit := do
  Process.lift (acc.begins lib sha256)
  let directory ← Process.read
  let part := temp.name directory
  Process.write (Table.put · part [])
  let reader ← Process.lift (opened acc.copied)
  copyfileobj part reader []
  Process.lift (attempt acc.close)
  Process.lift (attempt acc.replace)
  Process.write (replaced part destination)

/-- What is at the destination has the digest, and where the promotion raises, the destination is
as it was. -/
def PromotesChecked (lib : Libraries) (temp : Tempfile) (acc : Accesses)
    (sha256 destination : String) (directory : Directory) : Prop :=
  (promoteFrom lib temp acc sha256 destination).Ends directory
    (fun _ directory' => ∃ bytes, directory'.get destination = some bytes ∧
      lib.sha256 bytes = sha256)
    (fun _ directory' => directory'.get destination = directory.get destination)
    (fun _ => True)

/-! ## How it ends -/

section Ends

variable {lib : Libraries} {temp : Tempfile} {acc : Accesses} {sha256 destination part : String}
  {directory : Directory} {bytes : Bytes} {e : PromotionError}

theorem readToEnd_cons {byte : UInt8} {chunk : Bytes} {reader : Reader} :
    readToEnd (.ok (byte :: chunk) :: reader) =
      (readToEnd reader).map (byte :: chunk ++ ·) := by
  rw [readToEnd]
  exact List.cons_ne_nil _ _

theorem delivers_of_opened {reader : Reader} (h : opened acc.copied = .ok reader) :
    acc.delivers = do
      let bytes ← readToEnd reader
      attempt acc.close
      attempt acc.replace
      return bytes := by
  rw [Accesses.delivers, h]
  rfl

/-- The copy is written after what has been written before; where it raises, a part of it is. -/
theorem copyfileobj_ends (reader : Reader) (written : Bytes) :
    (copyfileobj part reader written).Ends (directory.put part written)
      (fun _ directory' => ∃ bytes, readToEnd reader = .ok bytes ∧
        directory' = directory.put part (written ++ bytes))
      (fun e directory' => readToEnd reader = .error e ∧
        ∃ bytes, directory' = directory.put part bytes)
      (fun _ => True) := by
  induction reader generalizing written with
  | nil => exact .pure ⟨[], rfl, by rw [List.append_nil]⟩
  | cons answer reader ih =>
    cases answer with
    | error exception => exact .raise ⟨rfl, written, rfl⟩
    | ok chunk =>
      cases chunk with
      | nil => exact .pure ⟨[], rfl, by rw [List.append_nil]⟩
      | cons byte chunk =>
        refine .bind (Q := fun _ directory' =>
          directory' = directory.put part (written ++ byte :: chunk))
          (.write trivial (Table.put_put directory part written _)) ?_
        rintro - directory' rfl
        refine (ih _).mono ?_ ?_ fun _ _ => trivial
        · rintro - directory' ⟨bytes, hread, rfl⟩
          refine ⟨byte :: chunk ++ bytes, ?_, by rw [List.append_assoc]⟩
          rw [readToEnd_cons, hread, Except.map]
        · rintro e directory' ⟨hread, bytes, rfl⟩
          exact ⟨by rw [readToEnd_cons, hread, Except.map], bytes, rfl⟩

theorem copyfileobj_bounded (reader : Reader) (written : Bytes) :
    (copyfileobj part reader written).Bounded reader.length := by
  induction reader generalizing written with
  | nil => exact .pure ()
  | cons answer reader ih =>
    cases answer with
    | error exception => exact (Process.Bounded.raise _).mono (Nat.zero_le _)
    | ok chunk =>
      cases chunk with
      | nil => exact (Process.Bounded.pure ()).mono (Nat.zero_le _)
      | cons byte chunk => exact (Process.Bounded.write _).bind fun _ => ih _

theorem replaced_put (hnew : directory.get part = none) :
    replaced part destination (directory.put part bytes) = directory.put destination bytes := by
  rw [replaced, Table.get_put_self]
  exact congrArg (Table.put · destination bytes)
    ((Table.erase_put directory part bytes).trans (Table.erase_of_get_none hnew))

/-- The bytes that the second open delivers are published, and a failure leaves a temporary file
with a part of them. -/
theorem promoteFrom_ends (hbegins : acc.begins lib sha256 = .ok ()) :
    (promoteFrom lib temp acc sha256 destination).Ends directory
      (fun _ directory' => ∃ bytes, acc.delivers = .ok bytes ∧
        directory' = directory.put destination bytes)
      (fun e directory' => acc.delivers = .error e ∧
        ∃ bytes, directory' = directory.put (temp.name directory) bytes)
      (fun _ => True) := by
  have hnew : directory.get (temp.name directory) = none := temp.new directory
  unfold promoteFrom
  rw [hbegins]
  refine .lift_bind nofun fun _ _ => .read_bind (.bind (Q := fun _ directory' =>
    directory' = directory.put (temp.name directory) []) (.write trivial rfl) ?_)
  rintro - directory₁ rfl
  refine .lift_bind (fun e he => ?_) fun reader hreader => ?_
  · rw [Accesses.delivers, he]
    exact ⟨rfl, [], rfl⟩
  rw [delivers_of_opened hreader]
  refine .bind (Q := fun _ directory' => ∃ bytes, readToEnd reader = .ok bytes ∧
    directory' = directory.put (temp.name directory) bytes)
    ((copyfileobj_ends reader []).mono ?_ ?_ fun _ h => h) ?_
  · rintro - directory' ⟨bytes, hread, rfl⟩
    exact ⟨bytes, hread, rfl⟩
  · rintro e directory' ⟨hread, bytes, rfl⟩
    rw [hread]
    exact ⟨rfl, bytes, rfl⟩
  rintro - directory₂ ⟨bytes, hread, rfl⟩
  rw [hread]
  refine .lift_bind (fun e he => ?_) fun _ hclose => .lift_bind (fun e he => ?_) fun _ hreplace => ?_
  · rw [he]
    exact ⟨rfl, bytes, rfl⟩
  · rw [hclose, he]
    exact ⟨rfl, bytes, rfl⟩
  · rw [hclose, hreplace]
    exact .write trivial ⟨bytes, rfl, replaced_put hnew⟩

/-- A promotion that does not begin changes nothing. -/
theorem promoteFrom_refused (he : acc.begins lib sha256 = .error e) :
    (promoteFrom lib temp acc sha256 destination).Ends directory (fun _ _ => False)
      (fun _ directory' => directory' = directory) (fun _ => True) := by
  unfold promoteFrom
  rw [he]
  exact .lift_bind (fun _ _ => rfl) nofun

/-- One write before the chunks, one for each and one behind them. -/
theorem promoteFrom_bounded : ∃ k, (promoteFrom lib temp acc sha256 destination).Bounded k := by
  have hcopy : ∃ k, ∀ reader, opened acc.copied = .ok reader → reader.length ≤ k := by
    cases opened acc.copied with
    | error e => exact ⟨0, nofun⟩
    | ok reader =>
      refine ⟨reader.length, fun reader' h => ?_⟩
      rw [Except.ok.inj h]
  obtain ⟨k, hcopy⟩ := hcopy
  refine ⟨1 + 0 + 0 + k + 1 + 0, .lift_bind fun _ _ => ?_⟩
  refine .bind .read fun directory => .bind (.write _) fun _ =>
    .lift_bind fun reader hreader => .bind ((copyfileobj_bounded reader []).mono ?_) fun _ =>
      .bind (.lift _) fun _ => .bind (.lift _) fun _ => .write _
  exact hcopy reader hreader

/-! ## What is published -/

/-- Where the second open delivers, its bytes are what is published. -/
theorem promotesChecked_of_delivers (hbegins : acc.begins lib sha256 = .ok ())
    (hdelivers : acc.delivers = .ok bytes) :
    PromotesChecked lib temp acc sha256 destination directory ↔ lib.sha256 bytes = sha256 := by
  have hends : (promoteFrom lib temp acc sha256 destination).Ends directory
      (fun _ directory' => directory' = directory.put destination bytes) (fun _ _ => False)
      (fun _ => True) := by
    refine (promoteFrom_ends hbegins).mono ?_ ?_ fun _ h => h
    · rintro - directory' ⟨bytes', hbytes', rfl⟩
      rw [Except.ok.inj (hdelivers.symm.trans hbytes')]
    · rintro e directory' ⟨herror, -⟩
      rw [hdelivers] at herror
      cases herror
  constructor
  · intro h
    obtain ⟨k, hbounded⟩ : ∃ k, (promoteFrom lib temp acc sha256 destination).Bounded k :=
      promoteFrom_bounded
    obtain ⟨u, directory', rest, hreturned, rfl⟩ := hends.returns hbounded
    have hend := h k
    rw [hreturned] at hend
    obtain ⟨bytes', hget, hsha⟩ := hend
    rw [Table.get_put_self] at hget
    rw [Option.some.inj hget]
    exact hsha
  · intro hsha
    refine hends.mono ?_ (fun _ _ => False.elim) fun _ h => h
    rintro - directory' rfl
    exact ⟨bytes, Table.get_put_self _ _ _, hsha⟩

/-- Where it does not, a temporary file is left; it is seen only under its own name. -/
theorem promotesChecked_of_error (hbegins : acc.begins lib sha256 = .ok ())
    (hdelivers : acc.delivers = .error e) :
    PromotesChecked lib temp acc sha256 destination directory ↔
      temp.name directory ≠ destination := by
  have hends : (promoteFrom lib temp acc sha256 destination).Ends directory (fun _ _ => False)
      (fun _ directory' => ∃ bytes, directory' = directory.put (temp.name directory) bytes)
      (fun _ => True) := by
    refine (promoteFrom_ends hbegins).mono ?_ ?_ fun _ h => h
    · rintro - directory' ⟨bytes, hbytes, -⟩
      rw [hdelivers] at hbytes
      cases hbytes
    · rintro e' directory' ⟨-, hpart⟩
      exact hpart
  constructor
  · rintro h rfl
    obtain ⟨k, hbounded⟩ :
        ∃ k, (promoteFrom lib temp acc sha256 (temp.name directory)).Bounded k :=
      promoteFrom_bounded
    obtain ⟨e', directory', rest, hraised, bytes, rfl⟩ := hends.raises hbounded
    have hend := h k
    have hnew : directory.get (temp.name directory) = none := temp.new directory
    rw [hraised] at hend
    change (directory.put (temp.name directory) bytes).get (temp.name directory) = _ at hend
    rw [Table.get_put_self, hnew] at hend
    cases hend
  · intro hne
    refine hends.mono (fun _ _ => False.elim) ?_ fun _ h => h
    rintro e' directory' ⟨bytes, rfl⟩
    exact Table.get_put_of_ne _ _ hne.symm

/-- A promotion publishes what it checked exactly where, once it begins, the second open delivers
bytes with the digest, or else the temporary file is not the destination itself. -/
theorem promotesChecked_iff : PromotesChecked lib temp acc sha256 destination directory ↔
    (acc.begins lib sha256 = .ok () →
      (∀ bytes, acc.delivers = .ok bytes → lib.sha256 bytes = sha256) ∧
      ∀ e, acc.delivers = .error e → temp.name directory ≠ destination) := by
  cases hbegins : acc.begins lib sha256 with
  | error e =>
    refine iff_of_true ?_ (by simp)
    refine (promoteFrom_refused hbegins).mono (fun _ _ => False.elim) ?_ fun _ h => h
    rintro - directory' rfl
    rfl
  | ok u =>
    cases hdelivers : acc.delivers with
    | ok bytes => simpa using promotesChecked_of_delivers hbegins hdelivers
    | error e => simpa using promotesChecked_of_error hbegins hdelivers

end Ends

/-! ## A file that is swapped -/

/-- A digest that tells the empty file from all others. -/
def emptyOrNot : Libraries :=
  { editorLibraries with sha256 := fun bytes => if bytes = [] then emptySha256 else "" }

/-- The empty file is checked, and another one is copied. -/
def swapped : Accesses where
  isFile := true
  checked := .ok []
  mkdir := none
  create := none
  copied := .ok [.ok [1]]
  close := none
  replace := none

/-- A file swapped between the two opens is published under the digest of the first. -/
theorem promotes_swapped :
    ¬ ∀ acc : Accesses, PromotesChecked emptyOrNot longNames acc emptySha256 "empty.bin" [] := by
  intro h
  have hdelivers : swapped.delivers = .ok [1] := rfl
  have hbegins : swapped.begins emptyOrNot emptySha256 = .ok () := rfl
  have hsha := (promotesChecked_of_delivers hbegins hdelivers).mp (h swapped)
  exact absurd hsha (by decide)

end DistPlatform.Ingest
