import DistPlatform.Library.Fallible
import DistPlatform.Library.Text
import DistPlatform.Ingest.Provenance

/-!
# Promotion gates (`dist_ingest.gates`)

A gate refuses an artifact or lets it pass; a gate that is not configured refuses. The
archive gate reads names and sizes only, nothing is extracted.

## Main definitions

* `checkEntryName`, `inspectArchive` — traversal and decompression bombs.
* `ContentGates`, `runContentGates` — the gates other services answer.
-/

namespace DistPlatform.Ingest

open Fallible

/-- The reasons of a `GateError`; the last group is `GateNotConfiguredError`. -/
inductive GateError
  | unusableName (name : String)
  | absolutePath (name : String)
  | backslash (name : String)
  | driveLetter (name : String)
  | traverses (name : String)
  | nulByte
  | tooManyEntries (entries limit : Nat)
  | expandsTooFar (limit : Nat)
  | expansionRatio (limit : Nat)
  | malwareFound
  | publisherMismatch (appId : String)
  | noSbom
  | noMalwareScanner
  | noPublisherCheck
  deriving DecidableEq, Repr

structure ArchiveLimits where
  maxEntries : Nat := 100000
  maxTotalUncompressed : Nat := 8 * 1024 * 1024 * 1024
  maxExpansionRatio : Nat := 200
  deriving DecidableEq, Repr

/-- What was measured; the expansion ratio is `totalUncompressed / compressed`. -/
structure ArchiveReport where
  entries : Nat
  totalUncompressed : Int
  compressed : Nat
  deriving DecidableEq, Repr

def checkEntryName (name : String) : Except GateError Unit := do
  ensure (name ≠ "" ∧ name ≠ "." ∧ name ≠ "..") (.unusableName name)
  ensure (¬ Text.startsWith name "/" ∧ ¬ Text.startsWith name "\\") (.absolutePath name)
  ensure ('\\' ∉ name.toList) (.backslash name)
  ensure (name.toList[1]? ≠ some ':') (.driveLetter name)
  ensure (['.', '.'] ∉ Text.segments name) (.traverses name)
  ensure (Char.ofNat 0 ∉ name.toList) .nulByte

/-- The loop of `inspect_archive`: every name is checked, the sizes are added up. -/
def sumEntries (limits : ArchiveLimits) : List (String × Int) → Int → Except GateError Int
  | [], total => .ok total
  | (name, size) :: entries, total => do
    checkEntryName name
    ensure (total + size ≤ limits.maxTotalUncompressed)
      (.expandsTooFar limits.maxTotalUncompressed)
    sumEntries limits entries (total + size)

/-- `inspect_archive`, from the archive's entries; `none` for what is no archive. An empty
file expands infinitely. -/
def inspectArchive (limits : ArchiveLimits) (compressed : Nat) :
    Option (List (String × Int)) → Except GateError (Option ArchiveReport)
  | none => .ok none
  | some entries => do
    ensure (entries.length ≤ limits.maxEntries)
      (.tooManyEntries entries.length limits.maxEntries)
    let total ← sumEntries limits entries 0
    ensure (0 < compressed ∧ total ≤ limits.maxExpansionRatio * compressed)
      (.expansionRatio limits.maxExpansionRatio)
    return some ⟨entries.length, total, compressed⟩

/-- The external gates; `none` is not configured. -/
structure ContentGates where
  malware : Option (Bytes → Bool) := none
  publisher : Option (Bytes → String → Bool) := none
  requireSbom : Bool := true
  skip : List String := []

/-- A gate by its name, run on its answer: skipped, refused, or passed. -/
def runGate (gates : ContentGates) (name : String) (answer : Option Bool)
    (notConfigured refused : GateError) : Except GateError (List String) :=
  if name ∈ gates.skip then .ok [name]
  else match answer with
    | none => .error notConfigured
    | some passed => if passed then .ok [] else .error refused

def runContentGates (artifact : Bytes) (appId : String) (gates : ContentGates)
    (sbom : Option Bytes) : Except GateError (List String) := do
  let malware ← runGate gates "malware" (gates.malware.map (· artifact)) .noMalwareScanner
    .malwareFound
  let publisher ← runGate gates "publisher" (gates.publisher.map (· artifact appId))
    .noPublisherCheck (.publisherMismatch appId)
  -- an SBOM needs no service, so this gate is always configured
  let sbom ← runGate gates "sbom" (some (!gates.requireSbom || sbom.any (· ≠ []))) .noSbom .noSbom
  return malware ++ publisher ++ sbom

end DistPlatform.Ingest
