import DistPlatform.Ingest.Provenance

/-!
# The quarantine store (`dist_ingest.quarantine`)

Artifacts are kept under the digest of the bytes that were stored, so an artifact's name is
computed here and never told.

## Main definitions

* `Quarantine` — the stored files and the size cap.
* `Quarantine.admitStream` — stream a candidate in.
-/

namespace DistPlatform.Ingest

/-- Why nothing was admitted: the cap, or whatever the reader raised. -/
inductive AdmitFailure
  | QuarantineError (maxBytes : Nat)
  | Reader (exception : String)
  deriving DecidableEq, Repr

structure Admitted where
  sha256 : String
  length : Nat
  deriving DecidableEq, Repr

/-- `stored` is the directory: file `<sha256>.bin` by its digest. -/
structure Quarantine where
  maxBytes : Nat
  stored : List (String × Bytes)
  deriving DecidableEq, Repr

def DEFAULT_MAX_ARTIFACT_BYTES := 2 * 1024 * 1024 * 1024

/-- The successive answers of `source.read`; an empty chunk ends the stream. -/
abbrev Reader := List (Except String Bytes)

/-- The `while chunk := source.read(_CHUNK)` loop. -/
def readAll (maxBytes : Nat) : Reader → Bytes → Except AdmitFailure Bytes
  | [], read => .ok read
  | .error exception :: _, _ => .error (.Reader exception)
  | .ok [] :: _, read => .ok read
  | .ok chunk :: reader, read =>
    if maxBytes < (read ++ chunk).length then .error (.QuarantineError maxBytes)
    else readAll maxBytes reader (read ++ chunk)

/-- The bytes of a stream that raises nothing. -/
def delivered (chunks : List Bytes) : Bytes := (chunks.takeWhile (· ≠ [])).flatten

theorem readAll_map_ok {maxBytes : Nat} {chunks : List Bytes} {read : Bytes}
    (hread : read.length ≤ maxBytes) :
    readAll maxBytes (chunks.map .ok) read =
      if maxBytes < (read ++ delivered chunks).length then .error (.QuarantineError maxBytes)
      else .ok (read ++ delivered chunks) := by
  induction chunks generalizing read with
  | nil => simp [readAll, delivered, Nat.not_lt.mpr hread]
  | cons chunk chunks ih =>
    cases chunk with
    | nil => simp [readAll, delivered, Nat.not_lt.mpr hread]
    | cons byte chunk =>
      have hdelivered : delivered ((byte :: chunk) :: chunks) =
          byte :: chunk ++ delivered chunks := by
        simp [delivered]
      rw [List.map_cons, readAll, hdelivered, ← List.append_assoc]
      split
      next hover =>
        rw [if_pos]
        rw [List.length_append]
        omega
      next hfits => exact ih (Nat.not_lt.mp hfits)
      · simp

namespace Quarantine

/-- A file replaced under its digest. -/
def put (q : Quarantine) (sha256 : String) (bytes : Bytes) : Quarantine :=
  { q with stored := (sha256, bytes) :: q.stored.filter (·.1 ≠ sha256) }

def read (q : Quarantine) (sha256 : String) : Option Bytes := q.stored.lookup sha256

/-- `admit`: nothing is stored unless the whole stream was read within the cap. -/
def admitStream (lib : Libraries) (q : Quarantine) (source : Reader) :
    Except AdmitFailure (Admitted × Quarantine) :=
  match readAll q.maxBytes source [] with
  | .error e => .error e
  | .ok bytes =>
    .ok (⟨lib.sha256 bytes, bytes.length⟩, q.put (lib.sha256 bytes) bytes)

theorem read_put (q : Quarantine) (sha256 : String) (bytes : Bytes) :
    (q.put sha256 bytes).read sha256 = some bytes := by
  simp [put, read]

/-- What was admitted is all that the reader delivered, stored under its own digest. -/
theorem read_of_admit {lib : Libraries} {q q' : Quarantine} {source : Reader}
    {admitted : Admitted} (h : q.admitStream lib source = .ok (admitted, q')) :
    ∃ bytes, readAll q.maxBytes source [] = .ok bytes ∧ q'.read admitted.sha256 = some bytes ∧
      admitted.sha256 = lib.sha256 bytes ∧ admitted.length = bytes.length := by
  unfold admitStream at h
  split at h
  · cases h
  next bytes hread =>
    obtain ⟨rfl, rfl⟩ := Prod.mk.inj (Except.ok.inj h)
    exact ⟨bytes, hread, read_put _ _ _, rfl, rfl⟩

theorem maxBytes_of_admit {lib : Libraries} {q q' : Quarantine} {source : Reader}
    {admitted : Admitted} (h : q.admitStream lib source = .ok (admitted, q')) :
    q'.maxBytes = q.maxBytes := by
  unfold admitStream at h
  split at h
  · cases h
  · obtain ⟨-, rfl⟩ := Prod.mk.inj (Except.ok.inj h)
    rfl

end Quarantine

/-! ## An artifact in two chunks -/

def builtArtifact : Bytes := "editor 1.0".toUTF8.toList

def builtSha256 : String := "85baff541a93d1c5024020c40c79890a3123993997761a4f8ec7010c0c363d14"

/-- The two chunks, and the end of the stream. -/
def builtStream : Reader := [.ok "editor".toUTF8.toList, .ok " 1.0".toUTF8.toList, .ok []]

end DistPlatform.Ingest
