import DistPlatform.Library.Fallible
import DistPlatform.Tuf.Metadata

/-!
# Metadata from JSON (`shims.rs`, and the constructors of `metadata.rs`)

What the verifier makes of a parsed metadata document. A shim reads the fields of the format,
and the constructor of the metadata type checks the values; either refuses the whole document.
The types are read the way serde derives it: a structure is an object, or an array with the
fields in order, and fields that are not known are passed over.

## Main definitions

* `Interchange` — what the crate takes from other crates.
* `rootMetadata`, `timestampMetadata`, `snapshotMetadata`, `targetsMetadata` — the four kinds.
* `signedMetadata` — the signatures of a document, and its signed part.
-/

namespace DistPlatform.Tuf

open DistPlatform Fallible

/-- The parser of JSON and of dates, canonical JSON, and keys with their signatures. A key
comes with the id the crate computes for it. -/
structure Interchange where
  fromSlice : List UInt8 → Option Json
  canonicalize : Json → Option (List UInt8)
  parseDatetime : String → Option Time
  publicKey : Json → Option PublicKey
  verify : PublicKey → List UInt8 → List UInt8 → Bool

/-! ## Values -/

/-- The members of a structure: of an object, or of an array of at least the `required` ones
of its fields. -/
def fields (names : List String) (required : Nat) : Json → Option (List (String × Json))
  | .obj members => some members
  | .arr xs =>
    if required ≤ xs.length ∧ xs.length ≤ names.length then some (names.zip xs) else none
  | _ => none

/-- The number after the last `u32`, and the last `u64`. -/
def U32_END := 0x100000000
def U64_END := 0x10000000000000000

def unsigned (bound : Nat) : Json → Option Nat
  | .int i => if 0 ≤ i ∧ i < bound then some i.toNat else none
  | _ => none

def u32 : Json → Option Nat := unsigned U32_END

def u64 : Json → Option Nat := unsigned U64_END

/-- A map with its keys read from the names of an object. -/
def mapOf {κ ν : Type} (key : String → Option κ) (value : Json → Option ν) :
    Json → Option (List (κ × ν))
  | .obj members => members.mapM fun (name, json) => do return (← key name, ← value json)
  | _ => none

def listOf {α : Type} (element : Json → Option α) : Json → Option (List α)
  | .arr xs => xs.mapM element
  | _ => none

def hexDigit (c : Char) : Option Nat := (List.range 16).find? (Nat.digitChar · = c)

/-- `HEXLOWER.decode`. -/
def decodeHex : List Char → Option (List UInt8)
  | [] => some []
  | [_] => none
  | high :: low :: rest => do
    return UInt8.ofNat (16 * (← hexDigit high) + (← hexDigit low)) :: (← decodeHex rest)

/-- `format_hex`. -/
def hexBytes (value : Json) : Option (List UInt8) := do decodeHex (← value.str?).toList

def keyId (id : String) : Option KeyId := if id.utf8ByteSize = 64 then some id else none

def hashAlgorithm : String → Option HashAlgorithm
  | "sha256" => some .Sha256
  | "sha512" => some .Sha512
  | _ => none

def metadataPath (value : String) : Option MetadataPath := (MetadataPath.new value).toOption

/-- A unit variant of an enumeration: its name, or an object of it and null. -/
def variant : Json → Option String
  | .str name => some name
  | .obj [(name, .null)] => some name
  | _ => none

/-- `check_spec_version`, which compares the major version. -/
def specVersionKnown (found : String) : Bool := found.toList.takeWhile (· ≠ '.') == ['1']

/-- Type, specification, version and expiry, which every kind of metadata has. -/
def header (ic : Interchange) (typ : String) (members : List (String × Json)) :
    Option (Nat × Time) := do
  let found ← variant (← members.lookup "_type")
  let specVersion ← (← members.lookup "spec_version").str?
  let version ← u32 (← members.lookup "version")
  let expires ← (← members.lookup "expires").str?
  require (found = typ)
  require (specVersionKnown specVersion = true)
  let expires ← ic.parseDatetime expires
  require (1 ≤ version)
  return (version, expires)

/-! ## The parts -/

def roleDefinition (value : Json) : Option RoleDefinition := do
  let members ← fields ["threshold", "keyids"] 2 value
  let threshold ← u32 (← members.lookup "threshold")
  let keyIds ← listOf (fun id => id.str?.bind keyId) (← members.lookup "keyids")
  require (keyIds ≠ [])
  require keyIds.Nodup
  require (1 ≤ threshold)
  require (threshold ≤ keyIds.length)
  return ⟨threshold, keyIds⟩

def metadataDescription (value : Json) : Option MetadataDescription := do
  let members ← fields ["version", "length", "hashes"] 1 value
  let version ← u32 (← members.lookup "version")
  let length ← match members.lookup "length" with
    | none | some .null => some none
    | some length => (u64 length).map some
  let hashes ← ((members.lookup "hashes").map (mapOf hashAlgorithm hexBytes)).getD (some [])
  require (1 ≤ version)
  return ⟨version, length, hashes⟩

def targetDescription (value : Json) : Option TargetDescription := do
  let members ← fields ["length", "hashes", "custom"] 2 value
  let length ← u64 (← members.lookup "length")
  let hashes ← mapOf hashAlgorithm hexBytes (← members.lookup "hashes")
  let custom ← ((members.lookup "custom").map (mapOf some some)).getD (some [])
  require (hashes ≠ [])
  return ⟨UInt64.ofNat length, hashes, custom⟩

def delegation (value : Json) : Option Delegation := do
  let members ← fields ["name", "terminating", "threshold", "keyids", "paths"] 5 value
  let role ← metadataPath (← (← members.lookup "name").str?)
  let terminating ← (← members.lookup "terminating").bool?
  let threshold ← u32 (← members.lookup "threshold")
  let keyIds ← listOf (fun id => id.str?.bind keyId) (← members.lookup "keyids")
  let paths ← listOf (fun path => path.str?.bind fun path => (TargetPath.newPattern path).toOption)
    (← members.lookup "paths")
  require paths.Nodup
  require keyIds.Nodup
  require (keyIds ≠ [])
  require (paths ≠ [])
  require (1 ≤ threshold)
  require (threshold ≤ keyIds.length)
  return ⟨role, terminating, threshold, keyIds, paths⟩

def delegations (ic : Interchange) (value : Json) : Option Delegations := do
  let members ← fields ["keys", "roles"] 2 value
  let keys ← mapOf keyId ic.publicKey (← members.lookup "keys")
  let roles ← listOf delegation (← members.lookup "roles")
  require (keys ≠ [])
  require (roles ≠ [])
  if h : (roles.map (·.role)).Nodup then some ⟨keys, roles, h⟩ else none

/-! ## The kinds of metadata -/

def rootMetadata (ic : Interchange) (value : Json) : Option RootMetadata := do
  let members ← fields ["_type", "spec_version", "version", "consistent_snapshot", "expires",
    "keys", "roles"] 7 value
  let (version, expires) ← header ic "root" members
  let consistentSnapshot ← (← members.lookup "consistent_snapshot").bool?
  let keys ← mapOf keyId ic.publicKey (← members.lookup "keys")
  let roles ← fields ["root", "snapshot", "targets", "timestamp"] 4 (← members.lookup "roles")
  let root ← roleDefinition (← roles.lookup "root")
  let snapshot ← roleDefinition (← roles.lookup "snapshot")
  let targets ← roleDefinition (← roles.lookup "targets")
  let timestamp ← roleDefinition (← roles.lookup "timestamp")
  -- a key listed under an id that is not its own is left out
  return ⟨version, expires, consistentSnapshot, keys.filter fun (id, key) => id == key.keyId,
    root, snapshot, targets, timestamp⟩

def timestampMetadata (ic : Interchange) (value : Json) : Option TimestampMetadata := do
  let members ← fields ["_type", "spec_version", "version", "expires", "meta"] 5 value
  let (version, expires) ← header ic "timestamp" members
  -- `TimestampMeta` denies any other field
  let descriptions ← fields ["snapshot.json"] 1 (← members.lookup "meta")
  require (∀ description ∈ descriptions, description.1 = "snapshot.json")
  let snapshot ← metadataDescription (← descriptions.lookup "snapshot.json")
  return ⟨version, expires, snapshot⟩

/-- The role of a file that a snapshot names. -/
def metaFile (name : String) : Option MetadataPath := do
  require (".json".toList.isSuffixOf name.toList = true)
  metadataPath (String.ofList (name.toList.take (name.toList.length - 5)))

def snapshotMetadata (ic : Interchange) (value : Json) : Option SnapshotMetadata := do
  let members ← fields ["_type", "spec_version", "version", "expires", "meta"] 5 value
  let (version, expires) ← header ic "snapshot" members
  let metas ← mapOf metaFile metadataDescription (← members.lookup "meta")
  return ⟨version, expires, metas⟩

def targetsMetadata (ic : Interchange) (value : Json) : Option TargetsMetadata := do
  let members ← fields ["_type", "spec_version", "version", "expires", "targets",
    "delegations"] 6 value
  let (version, expires) ← header ic "targets" members
  let targets ← mapOf (fun path => (TargetPath.new path).toOption) targetDescription
    (← members.lookup "targets")
  let delegations ← match members.lookup "delegations" with
    | none | some .null => some none
    | some value => (delegations ic value).map some
  return ⟨version, expires, targets, delegations⟩

/-! ## A signed document -/

structure Signature where
  keyId : KeyId
  value : List UInt8
  deriving DecidableEq, Repr

def signature (value : Json) : Option Signature := do
  let members ← fields ["keyid", "sig"] 2 value
  let id ← keyId (← (← members.lookup "keyid").str?)
  let sig ← hexBytes (← members.lookup "sig")
  return ⟨id, sig⟩

/-- `SignedMetadata`: the signatures, and the value they are over. -/
def signedMetadata (ic : Interchange) (raw : List UInt8) : Option (List Signature × Json) := do
  let members ← fields ["signatures", "signed"] 2 (← ic.fromSlice raw)
  let signatures ← listOf signature (← members.lookup "signatures")
  let signed ← members.lookup "signed"
  return (signatures, signed)

/-! ## What was read -/

section Read

variable {κ ν α : Type} {key : String → Option κ} {value : Json → Option ν}
  {element : Json → Option α} {members : List (String × Json)}

theorem fields_obj {names : List String} {required : Nat} {read : List (String × Json)} :
    fields names required (.obj members) = some read ↔ members = read :=
  Option.some_inj

theorem mapOf_obj {rows : List (κ × ν)} :
    mapOf key value (.obj members) = some rows ↔
      List.Forall₂ (fun member row => key member.1 = some row.1 ∧ value member.2 = some row.2)
        members rows := by
  have hrow (member : String × Json) (row : κ × ν) :
      (do return (← key member.1, ← value member.2)) = some row ↔
        key member.1 = some row.1 ∧ value member.2 = some row.2 := by
    obtain ⟨k, v⟩ := row
    simp [Option.bind_eq_some_iff]
  rw [mapOf, mapM_eq_some]
  constructor
  · exact List.Forall₂.imp fun member row h => (hrow member row).mp h
  · exact List.Forall₂.imp fun member row h => (hrow member row).mpr h

theorem listOf_arr {xs : List Json} {ys : List α} :
    listOf element (.arr xs) = some ys ↔ List.Forall₂ (fun x y => element x = some y) xs ys :=
  mapM_eq_some

theorem unsigned_int {bound n m : Nat} :
    unsigned bound (.int n) = some m ↔ n < bound ∧ m = n := by
  simp only [unsigned, Int.ofNat_lt, Int.natCast_nonneg, true_and, Int.toNat_natCast]
  split
  next h => simp [h, eq_comm]
  next h => simp [h]

/-- What a map was read to came from a member of the object. -/
theorem exists_of_mem_mapOf {rows : List (κ × ν)}
    (h : mapOf key value (.obj members) = some rows) {row : κ × ν} (hrow : row ∈ rows) :
    ∃ name json, (name, json) ∈ members ∧ key name = some row.1 ∧ value json = some row.2 := by
  have hrows := mapOf_obj.mp h
  induction hrows with
  | nil => cases hrow
  | @cons member first members rows hfirst hrest ih =>
    obtain rfl | hrow := List.mem_cons.mp hrow
    · exact ⟨member.1, member.2, List.mem_cons_self, hfirst⟩
    · obtain ⟨name, json, hmem, hread⟩ := ih (mapOf_obj.mpr hrest) hrow
      exact ⟨name, json, List.mem_cons_of_mem _ hmem, hread⟩

/-- Every member was read. -/
theorem exists_of_mem_members {rows : List (κ × ν)}
    (h : mapOf key value (.obj members) = some rows) {member : String × Json}
    (hmember : member ∈ members) :
    ∃ row ∈ rows, key member.1 = some row.1 ∧ value member.2 = some row.2 := by
  have hrows := mapOf_obj.mp h
  induction hrows with
  | nil => cases hmember
  | @cons first row members rows hfirst hrest ih =>
    obtain rfl | hmember := List.mem_cons.mp hmember
    · exact ⟨row, List.mem_cons_self, hfirst⟩
    · obtain ⟨row, hmem, hread⟩ := ih (mapOf_obj.mpr hrest) hmember
      exact ⟨row, List.mem_cons_of_mem _ hmem, hread⟩

theorem metadataPath_eq_some {text : String} {path : MetadataPath}
    (h : metadataPath text = some path) : path.value = text := by
  unfold metadataPath MetadataPath.new at h
  split at h
  · rw [← Option.some.inj h]
  · cases hsafe : safePathInner text false with
    | error e => simp [hsafe, Except.toOption, bind, Except.bind] at h
    | ok u =>
      simp only [hsafe, bind, Except.bind, pure, Except.pure, Except.toOption,
        Option.some.injEq] at h
      rw [← h]

theorem metaFile_eq_some {name : String} {path : MetadataPath} (h : metaFile name = some path) :
    name = path.value ++ ".json" := by
  obtain ⟨_, hsuffix, hpath⟩ := bind_eq_some.mp h
  have hsuffix := List.isSuffixOf_iff_suffix.mp (require_eq_some.mp hsuffix)
  obtain ⟨stem, hstem⟩ := hsuffix
  rw [metadataPath_eq_some hpath, ← String.toList_inj, String.toList_append,
    String.toList_ofList, ← hstem]
  simp

end Read

end DistPlatform.Tuf
